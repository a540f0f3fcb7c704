import Std.Data.HashMap.Lemmas
import Mathlib.Data.List.Forall2
import Mathlib.Data.List.Infix
import WordTiles.Sentence.Prune

/-! Pruning without its index: a path is compared with the paths that share its last entity, and no
other path could have decided on it. -/

namespace WordTiles.Prune

/-- An item is filed once under each of its entities, also where it repeats one, if what has been
filed before comes earlier in the list. -/
theorem getD_foldl_file {α : Type} {item : α × Nat} {files : Std.HashMap EntityId (List (α × Nat))}
    (earlier : ∀ key, ∀ other ∈ files.getD key [], other.2 < item.2) (entities : List EntityId)
    (key : EntityId) : (entities.foldl (file item) files).getD key [] =
      if key ∈ entities then item :: files.getD key [] else files.getD key [] := by
  -- By induction on the entities from the last one, which the item is filed under last.
  induction entities using List.reverseRecOn generalizing key with
  | nil => simp
  | append_singleton entities last ih =>
    rw [List.foldl_concat, file, ih last]
    by_cases repeated : last ∈ entities
    · -- The item is the one that was filed last under this entity.
      have same : key ∈ entities ++ [last] ↔ key ∈ entities := by
        rw [List.mem_append, List.mem_singleton, or_iff_left_iff_imp]
        rintro rfl
        exact repeated
      simp only [if_pos repeated, List.head?_cons, Option.map_some, if_true, ih key, same]
    · -- Whatever stands under this entity comes earlier than the item.
      have fresh : (files.getD last []).head?.map Prod.snd ≠ some item.2 := by
        intro filed
        obtain ⟨other, first, same⟩ := Option.map_eq_some_iff.mp filed
        exact (earlier last other (List.mem_of_mem_head? first)).ne same
      simp only [if_neg repeated, if_neg fresh, Std.HashMap.getD_insert, beq_iff_eq, ih key,
        List.mem_append, List.mem_singleton]
      by_cases same : last = key
      · simp [same]
      · simp [same, Ne.symm same]

/-- Under an entity stand the items that have it, the last one of the list first. -/
theorem getD_fileUnder {α : Type} (keys : α → List EntityId) (items : List α) (key : EntityId) :
    (fileUnder keys items).getD key [] =
      (items.zipIdx.filter fun item => key ∈ keys item.1).reverse := by
  -- By induction from the last item, before which all the others have been filed.
  induction items using List.reverseRecOn generalizing key with
  | nil => simp [fileUnder]
  | append_singleton items last ih =>
    have earlier : ∀ key, ∀ other ∈ (fileUnder keys items).getD key [],
        other.2 < items.length := by
      intro key other filed
      rw [ih key, List.mem_reverse, List.mem_filter] at filed
      simpa using (List.mem_zipIdx filed.1).2.1
    have whole : fileUnder keys (items ++ [last]) =
        (keys last).foldl (file (last, items.length)) (fileUnder keys items) := by
      simp [fileUnder, List.zipIdx_append]
    rw [whole, getD_foldl_file earlier, ih key, List.zipIdx_append, List.filter_append]
    by_cases filed : key ∈ keys last <;> simp [filed]

/-- Some item under an entity passes a test exactly if some item does, where the test asks for the
entity. -/
theorem any_getD_fileUnder {α : Type} {keys : α → List EntityId} {items : List α} {key : EntityId}
    (test : α → Bool) (filed : ∀ item ∈ items, test item = true → key ∈ keys item) :
    ((fileUnder keys items).getD key []).any (fun item => test item.1) = items.any test := by
  -- What is filed under the entity is what has it as a key, with the places added.
  rw [getD_fileUnder, List.any_reverse, List.any_filter, Bool.eq_iff_iff, List.any_eq_true,
    List.any_eq_true]
  constructor
  · rintro ⟨item, listed, passes⟩
    rw [Bool.and_eq_true] at passes
    exact ⟨item.1, List.fst_mem_of_mem_zipIdx listed, passes.2⟩
  · rintro ⟨item, listed, passes⟩
    obtain ⟨place, inside, rfl⟩ := List.getElem_of_mem listed
    refine ⟨(items[place], place), by simp [List.mk_mem_zipIdx_iff_getElem?], ?_⟩
    simp [passes, filed _ listed passes]

/-- Something is filed under every entity of an item. -/
theorem mem_fileUnder_of_mem {α : Type} {keys : α → List EntityId} {items : List α} {key : EntityId}
    {item : α} (listed : item ∈ items) (filed : key ∈ keys item) : key ∈ fileUnder keys items := by
  by_contra missing
  -- Then no item would be found under it.
  have none := getD_fileUnder keys items key
  rw [Std.HashMap.getD_eq_fallback missing, eq_comm, List.reverse_eq_nil_iff,
    List.filter_eq_nil_iff] at none
  obtain ⟨place, inside, rfl⟩ := List.getElem_of_mem listed
  exact none (items[place], place) (by simp [List.mk_mem_zipIdx_iff_getElem?])
    (decide_eq_true filed)

/-- A tail is a shorter end. -/
theorem isTailOf_iff {short long : List EntityId} :
    isTailOf short long = true ↔ short <:+ long ∧ short.length < long.length := by
  -- The code tests the length first, for speed.
  rw [isTailOf, Bool.and_eq_true, decide_eq_true_eq, List.isSuffixOf_iff_suffix, and_comm]

/-- A block occurs in a path when it is a contiguous part of it. -/
theorem occursIn_iff {block path : List EntityId} :
    occursIn block path = true ↔ block <:+: path := by
  -- The block begins at the first entity, or occurs in the rest.
  induction path with
  | nil => simp [occursIn]
  | cons first rest ih =>
    rw [occursIn, Bool.or_eq_true, ih, List.isPrefixOf_iff_prefix, List.infix_cons_iff]

/-- The paths are kept that are the tail of none. It makes no difference that only those that share
the last entity are compared. -/
theorem dropTails_eq {paths : List Phrase} (nonempty : ∀ path ∈ paths, path.words ≠ []) :
    dropTails paths = paths.filter fun path =>
      !paths.any fun other => isTailOf path.entities other.entities := by
  unfold dropTails
  refine List.filter_congr fun path member => ?_
  have filled : path.entities ≠ [] := by simpa [Phrase.entities] using nonempty path member
  rw [List.getLast?_eq_some_getLast filled]
  refine congrArg Bool.not
    (any_getD_fileUnder (fun other : Phrase => isTailOf path.entities other.entities)
      fun other _ tail => ?_)
  -- Whoever has the path as a tail is filed under the same last entity.
  obtain ⟨before, same⟩ := (isTailOf_iff.mp tail).1
  rw [← same, List.getLast?_append_of_ne_nil _ filled, List.getLast?_eq_some_getLast filled]
  exact List.mem_singleton_self _

/-- A path is kept when it is the tail of none. -/
theorem mem_dropTails_iff {paths : List Phrase} (nonempty : ∀ path ∈ paths, path.words ≠ [])
    {path : Phrase} : path ∈ dropTails paths ↔
      path ∈ paths ∧ ∀ other ∈ paths, isTailOf path.entities other.entities = false := by
  -- The files stand for a comparison with every path.
  rw [dropTails_eq nonempty, List.mem_filter, Bool.not_eq_true', List.any_eq_false]
  simp only [Bool.not_eq_true]

/-- The headings of paths are found if each of them is. -/
theorem exists_headings {paths : List Phrase}
    (headed : ∀ path ∈ paths, ∃ heading, path.heading = .ok heading) :
    ∃ headings, paths.mapM Phrase.heading = .ok headings ∧
      List.Forall₂ (fun path heading => path.heading = .ok heading) paths headings := by
  -- The paths are taken one by one, and none of them fails.
  induction paths with
  | nil => exact ⟨[], rfl, .nil⟩
  | cons first rest ih =>
    obtain ⟨heading, one⟩ := headed first (by simp)
    obtain ⟨headings, found, each⟩ := ih fun path member => headed path (by simp [member])
    refine ⟨heading :: headings, ?_, .cons one each⟩
    simp [List.mapM_cons, one, found, Bind.bind, Except.bind, Pure.pure, Except.pure]

/-- A candidate that tells its own direction. -/
def Candidate.IsHeaded (candidate : Candidate) : Prop :=
  -- A path of a single word has no heading, and is not forward.
  ∃ heading, candidate.phrase.heading = .ok heading ∧
    candidate.forward = heading.any Direction.readsForward

/-- The candidates of paths with a heading: one for each path, in their order. -/
theorem candidates_spec {paths : List Phrase}
    (headed : ∀ path ∈ paths, ∃ heading, path.heading = .ok heading) :
    ∃ field, candidates paths = .ok field ∧ field.map Candidate.phrase = paths ∧
      ∀ candidate ∈ field, candidate.IsHeaded := by
  obtain ⟨headings, found, each⟩ := exists_headings headed
  refine ⟨(paths.zip headings).zipIdx.map fun numbered =>
    ⟨numbered.1.1, numbered.1.2.any Direction.readsForward, numbered.2⟩, ?_, ?_, ?_⟩
  · simp [candidates, found, Bind.bind, Except.bind, Pure.pure, Except.pure]
  · -- Without their headings and places the candidates are the paths.
    rw [List.map_map]
    change (paths.zip headings).zipIdx.map (Prod.fst ∘ Prod.fst) = paths
    rw [← List.map_map, List.zipIdx_map_fst, List.map_fst_zip each.length_eq.le]
  · intro candidate member
    obtain ⟨⟨⟨phrase, heading⟩, place⟩, numbered, rfl⟩ := List.mem_map.mp member
    have zipped := List.mem_map_of_mem numbered (f := Prod.fst)
    rw [List.zipIdx_map_fst] at zipped
    exact ⟨heading, List.forall₂_zip each zipped, rfl⟩

/-- A candidate that loses to another shares its last entity with it. -/
theorem Candidate.mem_of_losesTo {candidate other : Candidate}
    (loses : candidate.losesTo other = true) (filled : candidate.phrase.entities ≠ []) :
    candidate.phrase.entities.getLast filled ∈ other.phrase.entities := by
  -- Read backwards, the last entity comes first, and the whole block occurs in the other path.
  unfold losesTo at loses
  simp only [Bool.and_eq_true, occursIn_iff] at loses
  exact loses.1.subset (List.mem_reverse.mpr (List.getLast_mem filled))

/-- The candidates are kept that lose to none. It makes no difference that only those that share the
last entity are compared. -/
theorem dropReversals_eq {paths : List Phrase} (nonempty : ∀ path ∈ paths, path.words ≠ [])
    {field : List Candidate} (built : candidates paths = .ok field)
    (phrases : field.map Candidate.phrase = paths) :
    dropReversals paths =
      .ok ((field.filter fun candidate => !field.any candidate.losesTo).map (·.phrase)) := by
  unfold dropReversals
  simp only [built, Bind.bind, Except.bind, Pure.pure, Except.pure]
  refine congrArg (fun kept => Except.ok (kept.map Candidate.phrase))
    (List.filter_congr fun candidate member => ?_)
  have filled : candidate.phrase.entities ≠ [] := by
    have listed : candidate.phrase ∈ paths := phrases ▸ List.mem_map_of_mem member
    simpa [Phrase.entities] using nonempty _ listed
  rw [List.getLast?_eq_some_getLast filled]
  -- Whoever beats the candidate is filed under its last entity.
  exact congrArg Bool.not
    (any_getD_fileUnder candidate.losesTo fun _ _ loses => Candidate.mem_of_losesTo loses filled)

/-- The paths that are kept are those of the candidates that lose to none, in their order. -/
theorem dropReversals_spec {paths : List Phrase} (nonempty : ∀ path ∈ paths, path.words ≠ [])
    {field : List Candidate} (built : candidates paths = .ok field)
    (phrases : field.map Candidate.phrase = paths) :
    ∃ kept, dropReversals paths = .ok kept ∧ kept.Sublist paths ∧
      ∀ path, path ∈ kept ↔ ∃ candidate ∈ field, candidate.phrase = path ∧
        ∀ other ∈ field, candidate.losesTo other = false := by
  -- The files stand for a comparison with every candidate.
  refine ⟨_, dropReversals_eq nonempty built phrases, ?_, fun path => ?_⟩
  · rw [← phrases]
    exact List.filter_sublist.map _
  · rw [List.mem_map]
    refine exists_congr fun candidate => ?_
    rw [List.mem_filter, and_assoc, and_comm (a := candidate.phrase = path), Bool.not_eq_true',
      List.any_eq_false]
    simp only [Bool.not_eq_true]

end WordTiles.Prune
