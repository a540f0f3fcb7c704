import WordTiles.Proofs.Sentence.Found

/-! The marks of a search, word by word: each word of each surviving path leaves one on its cell,
under the identifier of the phrase that spells the path, and nothing else leaves any. -/

namespace WordTiles

/-- What the words of a path leave on their cells. -/
inductive Phrase.Leaves (path : Phrase) : Cell → Direction → PathRole → Prop where
  /-- A word that is followed by another leaves the direction of the step to it. The first word of
  the path is where it starts. -/
  | onward {before after : List PlacedWord} {word next : PlacedWord} {direction : Direction}
      (words : path.words = before ++ word :: next :: after)
      (leads : word.LeadsTo direction next) :
      path.Leaves word.position direction (if before.isEmpty then .start else .middle)
  /-- The last word leaves the direction of the step that led to it. -/
  | arrival {before : List PlacedWord} {word last : PlacedWord} {direction : Direction}
      (words : path.words = before ++ [word, last]) (leads : word.LeadsTo direction last) :
      path.Leaves last.position direction .finish

namespace Passes

variable {role role' : PathRole} {words : List PlacedWord} {cell : Cell} {direction : Direction}

/-- A path that passes a cell passes it with one more word in front as well. -/
theorem cons (passes : Passes .middle words cell direction role') (word : PlacedWord) :
    Passes role (word :: words) cell direction role' := by
  -- However it passes the cell, it does so behind the word in front.
  cases passes with
  | leaves leads => exact .later (.leaves leads)
  | arrives leads => exact .later (.arrives leads)
  | later passes => exact .later (.later passes)

/-- Wherever two words follow each other, a path passes the cell of the first. -/
theorem onward {before after : List PlacedWord} {word next : PlacedWord}
    (leads : word.LeadsTo direction next) :
    Passes role (before ++ word :: next :: after) word.position direction
      (if before.isEmpty then role else .middle) := by
  induction before generalizing role with
  | nil => exact .leaves leads
  | cons first rest ih =>
    -- Behind the first word every role is that of a word in the middle.
    have tail : Passes .middle (rest ++ word :: next :: after) word.position direction
        (if rest.isEmpty then .middle else .middle) := ih
    rw [ite_self] at tail
    exact tail.cons first

/-- Where its last two words follow each other, a path passes the cell of the second. -/
theorem arrival {before : List PlacedWord} {word last : PlacedWord}
    (leads : word.LeadsTo direction last) :
    Passes role (before ++ [word, last]) last.position direction .finish := by
  -- Words before the last two change neither the cell nor the role.
  induction before generalizing role with
  | nil => exact .arrives leads
  | cons first rest ih => exact ih.cons first

/-- A walk of at least two words arrives somewhere. -/
theorem exists_finish (walk : IsWalk words) (long : 2 ≤ words.length) :
    ∃ cell direction, Passes role words cell direction .finish := by
  -- By induction on the words: once two are left, the second is where the walk arrives.
  induction words generalizing role with
  | nil => simp at long
  | cons first rest ih =>
    cases rest with
    | nil => simp at long
    | cons second rest =>
      obtain ⟨⟨direction, leads⟩, walk⟩ := List.isChain_cons_cons.mp walk
      cases rest with
      | nil => exact ⟨_, direction, .arrives leads⟩
      | cons third rest =>
        obtain ⟨cell, direction, passes⟩ : ∃ cell direction,
            Passes .middle (second :: third :: rest) cell direction .finish := ih walk (by simp)
        exact ⟨cell, direction, .later passes⟩

/-- And it leaves from its first word. -/
theorem exists_start (walk : IsWalk words) (long : 2 ≤ words.length) :
    ∃ cell direction, Passes role words cell direction role := by
  -- A walk that is long enough has a first step.
  match words, long with
  | first :: second :: rest, _ =>
    obtain ⟨⟨direction, leads⟩, _⟩ := List.isChain_cons_cons.mp walk
    exact ⟨_, direction, .leaves leads⟩

end Passes

/-- The ways in which a path passes are what its words leave. -/
theorem Phrase.leaves_iff_passes {path : Phrase} {cell : Cell} {direction : Direction}
    {role : PathRole} :
    path.Leaves cell direction role ↔ Passes .start path.words cell direction role := by
  constructor
  · intro leaves
    cases leaves with
    | onward words leads => exact words ▸ .onward leads
    | arrival words leads => exact words ▸ .arrival leads
  · -- By induction on how the path passes, for the words behind those that were passed before.
    have general {first role : PathRole} {words : List PlacedWord} {cell : Cell}
        {direction : Direction} (passes : Passes first words cell direction role) :
        ∀ before, path.words = before ++ words →
          first = (if before.isEmpty then .start else .middle) →
            path.Leaves cell direction role := by
      induction passes with
      | leaves leads =>
        intro before words begins
        rw [begins]
        exact .onward words leads
      | arrives leads => exact fun before words _ => .arrival words leads
      | @later _ _ word next rest _ _ _ ih =>
        intro before words _
        exact ih (before ++ [word]) (by rw [words, List.append_assoc]; rfl) (by simp)
    exact fun passes => general passes [] rfl rfl

namespace MarkGrid

/-- No cell has a mark twice. -/
theorem nodup_marksAt (grid : MarkGrid) (cell : Cell) : (grid.marksAt cell).Nodup := by
  -- Two entries of one cell that have the same mark are the same entry.
  refine (grid.nodup.filter _).map_on fun a left b right same => ?_
  simp only [List.mem_filter, beq_iff_eq] at left right
  exact Prod.ext (left.2.trans right.2.symm) same

/-- Inserting marks that are all there changes nothing. -/
theorem foldl_insert_of_subset {grid : MarkGrid} {added : List (Cell × Mark)}
    (present : added ⊆ grid.entries) : added.foldl insert grid = grid := by
  -- The first mark is there, so that the grid is unchanged when the others come.
  induction added with
  | nil => rfl
  | cons first rest ih =>
    rw [List.cons_subset] at present
    rw [List.foldl_cons, insert, dif_pos present.1]
    exact ih present.2

/-- Inserting a path means to insert its marks, which do not depend on what is there. -/
theorem insertPath_eq_ok_iff {grid marked : MarkGrid} {id : PhraseId} {path : Phrase} :
    grid.insertPath id path = .ok marked ↔
      ∃ added, marksOf id path = .ok added ∧ added.foldl insert grid = marked := by
  -- The marks are computed first, and only that can fail.
  unfold insertPath
  rw [bind_eq_ok_iff]
  exact exists_congr fun added => and_congr_right fun _ => ⟨Except.ok.inj, congrArg _⟩

/-- Inserting paths one after the other takes no mark away. -/
theorem subset_foldlM_insertPath {later : List (PhraseId × Phrase)} {grid final : MarkGrid}
    (inserted : later.foldlM (fun grid entry => grid.insertPath entry.1 entry.2) grid = .ok final) :
    grid.entries ⊆ final.entries := by
  -- What is there when the first path has been inserted is kept by the others.
  induction later generalizing grid with
  | nil =>
    cases inserted
    exact List.Subset.refl _
  | cons first rest ih =>
    rw [List.foldlM_cons] at inserted
    obtain ⟨marked, one, inserted⟩ := bind_eq_ok_iff.mp inserted
    obtain ⟨added, _, rfl⟩ := insertPath_eq_ok_iff.mp one
    exact fun entry member => ih inserted (mem_foldl_insert.mpr (.inl member))

/-- Inserting a path again, whatever was inserted meanwhile, changes nothing. -/
theorem insertPath_again {grid marked final : MarkGrid} {id : PhraseId} {path : Phrase}
    {later : List (PhraseId × Phrase)} (first : grid.insertPath id path = .ok marked)
    (inserted : later.foldlM (fun grid entry => grid.insertPath entry.1 entry.2) marked =
      .ok final) : final.insertPath id path = .ok final := by
  -- The marks are the same as before, and none of them was taken away.
  obtain ⟨added, made, rfl⟩ := insertPath_eq_ok_iff.mp first
  refine insertPath_eq_ok_iff.mpr ⟨added, made, foldl_insert_of_subset fun entry member => ?_⟩
  exact subset_foldlM_insertPath inserted (mem_foldl_insert.mpr (.inr member))

end MarkGrid

namespace Findings

variable {findings : Findings} {paths : List Phrase}

/-- The marks of a cell are what the words of the paths leave there. -/
theorem Collects.mem_marksAt_iff (collects : findings.Collects paths) {cell : Cell} {mark : Mark} :
    mark ∈ findings.marks.marksAt cell ↔
      ∃ path ∈ paths, findings.Names mark.phrase path ∧
        path.Leaves cell mark.direction mark.role := by
  -- The entries are known from the paths, and identifiers from what they name.
  rw [MarkGrid.mem_marksAt_iff, collects.mem_marks]
  simp only [collects.idOf?_eq_some_iff, Phrase.leaves_iff_passes]

/-- Every phrase has a mark in each role in which its own path passes. -/
theorem Collects.exists_mark (collects : findings.Collects paths) {place : Nat}
    (below : place < findings.phrases.length) {cell : Cell} {direction : Direction}
    {role : PathRole} (passes : Passes .start findings.phrases[place].words cell direction role) :
    ∃ mark ∈ findings.marks.marksAt cell, mark.phrase = ⟨.ofNat place⟩ ∧ mark.role = role :=
  -- The phrase is the path that it was first found as.
  ⟨⟨⟨.ofNat place⟩, direction, role⟩,
    collects.mem_marksAt_iff.mpr ⟨_, collects.mem_paths _ (List.getElem_mem below),
      ⟨place, _, List.getElem?_eq_getElem below, rfl, rfl⟩, Phrase.leaves_iff_passes.mpr passes⟩,
    rfl, rfl⟩

end Findings

namespace World

open Sentence

/-- On a world that a host can bring about, a search marks what survives. No cell has a mark twice,
and its marks are those that some word of a path that survives leaves there, under the identifier of
the phrase that spells the path. Marked cells lie on the grid, marks belong to phrases, and every
phrase has a mark where it starts and one where it ends. On any grid of marks, whatever has been
inserted since, inserting a path again under the same identifier changes nothing. -/
theorem Reachable.search_marks {world : World} (reachable : world.Reachable) (config : Config) :
    ∃ kept findings, world.board.paths config = .ok kept ∧ world.search config = .ok findings ∧
      (∀ cell, (findings.marks.marksAt cell).Nodup) ∧
      (∀ cell mark, mark ∈ findings.marks.marksAt cell ↔
        ∃ path ∈ kept, findings.Names mark.phrase path ∧
          path.Leaves cell mark.direction mark.role) ∧
      (∀ cell, ∀ mark ∈ findings.marks.marksAt cell, world.contains cell = true ∧
        mark.phrase.val.toNat < findings.phrases.length) ∧
      (∀ place < findings.phrases.length, ∀ role ∈ [PathRole.start, .finish], ∃ cell,
        ∃ mark ∈ findings.marks.marksAt cell, mark.phrase = ⟨.ofNat place⟩ ∧ mark.role = role) ∧
      ∀ (grid marked final : MarkGrid) (id : PhraseId) (path : Phrase)
        (later : List (PhraseId × Phrase)), grid.insertPath id path = .ok marked →
          later.foldlM (fun grid entry => grid.insertPath entry.1 entry.2) marked = .ok final →
            final.insertPath id path = .ok final := by
  obtain ⟨kept, findings, survived, survives, searched, collects, _⟩ :=
    Board.search_spec reachable.consistent.single_board config
  have sentences : ∀ path ∈ kept, IsSentence world.board.Shows config path.words :=
    fun path member => ((survives path).mp member).1.1.1
  refine ⟨kept, findings, survived, searched, findings.marks.nodup_marksAt,
    fun cell mark => collects.mem_marksAt_iff, ?_, ?_,
    fun grid marked final id path later => MarkGrid.insertPath_again⟩
  · intro cell mark marked
    refine ⟨?_, collects.marked (MarkGrid.mem_marksAt_iff.mp marked)⟩
    obtain ⟨path, member, _, leaves⟩ := collects.mem_marksAt_iff.mp marked
    -- A word lies on the cell, and every word of a sentence shows on the grid.
    obtain ⟨word, listed, rfl⟩ := (Phrase.leaves_iff_passes.mp leaves).exists_word
    exact ((sentences path member).shows word listed).1
  · intro place below role outer
    have member := collects.mem_paths _ (List.getElem_mem below)
    obtain ⟨parse, valid, words⟩ := sentences _ member
    have walk := words ▸ valid.isWalk
    have long : 2 ≤ findings.phrases[place].words.length :=
      words ▸ Nat.le_of_succ_le valid.minWords_le
    rcases List.mem_pair.mp outer with rfl | rfl
    · obtain ⟨cell, direction, passes⟩ : ∃ cell direction,
          Passes .start findings.phrases[place].words cell direction .start :=
        Passes.exists_start walk long
      exact ⟨cell, collects.exists_mark below passes⟩
    · obtain ⟨cell, direction, passes⟩ : ∃ cell direction,
          Passes .start findings.phrases[place].words cell direction .finish :=
        Passes.exists_finish walk long
      exact ⟨cell, collects.exists_mark below passes⟩

/-- Of two rows that spell the same, the second one leaves its marks under the identifier of the
first. -/
theorem search_marks_sameRows : ∃ bare ids world kept findings, empty 3 2 = .ok bare ∧
    bare.createAll [.tile .rock ⟨0, 0⟩, .tile .is ⟨1, 0⟩, .tile .push ⟨2, 0⟩,
      .tile .rock ⟨0, 1⟩, .tile .is ⟨1, 1⟩, .tile .push ⟨2, 1⟩] = .ok (ids, world) ∧
    world.board.paths .standard = .ok kept ∧ world.search .standard = .ok findings ∧
    findings.phrases.map Phrase.spelling = [[.rock, .is, .push]] ∧
    findings.marks.marksAt ⟨0, 1⟩ = [⟨⟨0⟩, .east, .start⟩] ∧
    ∃ path ∈ kept, findings.Names ⟨0⟩ path ∧ path.Leaves ⟨0, 1⟩ .east .start := by
  -- Evaluated in one piece, so that the world is built only once.
  have known : (do
      let bare ← empty 3 2
      let built ← bare.createAll [.tile .rock ⟨0, 0⟩, .tile .is ⟨1, 0⟩, .tile .push ⟨2, 0⟩,
        .tile .rock ⟨0, 1⟩, .tile .is ⟨1, 1⟩, .tile .push ⟨2, 1⟩]
      let findings ← built.2.search .standard
      return (findings.phrases.map Phrase.spelling, findings.marks.marksAt ⟨0, 1⟩) :
        Except Error _) = .ok ([[.rock, .is, .push]], [⟨⟨0⟩, .east, .start⟩]) := by
    cbv
  obtain ⟨bare, built, known⟩ := bind_eq_ok_iff.mp known
  obtain ⟨⟨ids, world⟩, created, known⟩ := bind_eq_ok_iff.mp known
  obtain ⟨findings, searched, known⟩ := bind_eq_ok_iff.mp known
  simp only [Pure.pure, Except.pure, Except.ok.injEq, Prod.mk.injEq] at known
  obtain ⟨spelled, marked⟩ := known
  obtain ⟨kept, _, survived, searched', _, marks, _⟩ :=
    ((Reachable.empty built).createAll created).search_marks .standard
  cases searched.symm.trans searched'
  have listed : ⟨⟨0⟩, .east, .start⟩ ∈ findings.marks.marksAt ⟨0, 1⟩ := marked ▸ .head _
  exact ⟨bare, ids, world, kept, findings, built, created, survived, searched, spelled, marked,
    (marks _ _).mp listed⟩

end World

end WordTiles
