import WordTiles.Proofs.Hex.Distance
import WordTiles.Proofs.Sentence.Survivors

/-! What a search finds: it succeeds on every board that shows each tile once, its phrases are
surviving paths, each surviving path spells one of them, its marks are those of the surviving paths,
and the findings pass their check. -/

namespace WordTiles

/-- Each word lies one step from the next. -/
def IsWalk (words : List PlacedWord) : Prop :=
  -- The direction may change at every step.
  words.IsChain fun word next => ∃ direction, word.LeadsTo direction next

namespace Sentence

variable {shown : PlacedWord → Prop} {config : Config} {parse : Parse}

/-- A path that winds goes step by step. -/
theorem Winds.isWalk {heading final : Direction} {words : List PlacedWord}
    (winds : Winds config heading words final) : IsWalk words := by
  -- Each turn is two steps, one into the conjunction and one out of it.
  unfold IsWalk
  induction winds with
  | stay => exact .singleton _
  | turn reached _ left _ ih =>
    exact List.isChain_cons_cons.mpr ⟨⟨_, reached⟩, List.isChain_cons_cons.mpr ⟨⟨_, left⟩, ih⟩⟩

/-- A sentence goes step by step. -/
theorem Parse.Valid.isWalk (valid : parse.Valid shown config) : IsWalk parse.words := by
  -- The straight half ends with the first predicate, where the winding half begins.
  obtain ⟨first, rest, split⟩ := valid.exists_first
  have straight : IsWalk (parse.subjects ++ parse.verb :: parse.predicates.take 1) :=
    valid.straight.imp fun _ _ leads => ⟨_, leads⟩
  have winds := valid.winds.isWalk
  rw [split, List.take_succ_cons, List.take_zero] at straight
  rw [split] at winds
  unfold IsWalk at straight winds ⊢
  rw [← List.singleton_append, ← List.append_assoc] at straight
  rw [Parse.words, split, ← List.singleton_append, ← List.append_assoc]
  exact List.isChain_split.mpr ⟨straight, winds⟩

/-- A sentence has a subject, a relation word and a predicate. -/
theorem Parse.Valid.minWords_le (valid : parse.Valid shown config) :
    Phrase.minWords ≤ parse.words.length := by
  -- Neither block is empty.
  have subjects := List.length_pos_iff.mpr valid.subjects.ne_nil
  have predicates := List.length_pos_iff.mpr valid.predicates.ne_nil
  rw [Parse.words, List.length_append, List.length_cons, Phrase.minWords]
  omega

end Sentence

namespace Phrase

/-- The words of a walk are found to be adjacent. -/
theorem adjacentWords_of_isWalk {words : List PlacedWord} (walk : IsWalk words) :
    adjacentWords words = .ok true := by
  -- The pairs are tested from the front, and each is one step apart.
  induction words with
  | nil => rfl
  | cons first rest ih =>
    cases rest with
    | nil => rfl
    | cons second rest =>
      obtain ⟨⟨_, leads⟩, walk⟩ := List.isChain_cons_cons.mp walk
      rw [adjacentWords, Cell.isNeighborOf_of_neighbor leads]
      exact ih walk

end Phrase

/-- How a path passes a cell, given the role of its first word: it leaves a word in the direction of
the next, and it arrives at the last word in the direction that led there. -/
inductive Passes : PathRole → List PlacedWord → Cell → Direction → PathRole → Prop where
  | leaves {role : PathRole} {word next : PlacedWord} {rest : List PlacedWord}
      {direction : Direction} (leads : word.LeadsTo direction next) :
      Passes role (word :: next :: rest) word.position direction role
  | arrives {role : PathRole} {word next : PlacedWord} {direction : Direction}
      (leads : word.LeadsTo direction next) :
      Passes role [word, next] next.position direction .finish
  | later {role role' : PathRole} {word next : PlacedWord} {rest : List PlacedWord} {cell : Cell}
      {direction : Direction} (passes : Passes .middle (next :: rest) cell direction role') :
      Passes role (word :: next :: rest) cell direction role'

/-- A path passes only the cells of its words. -/
theorem Passes.exists_word {role role' : PathRole} {words : List PlacedWord} {cell : Cell}
    {direction : Direction} (passes : Passes role words cell direction role') :
    ∃ word ∈ words, word.position = cell := by
  -- Every way to pass names the word whose cell it is.
  induction passes with
  | leaves => exact ⟨_, by simp, rfl⟩
  | arrives => exact ⟨_, by simp, rfl⟩
  | later _ ih =>
    obtain ⟨word, member, here⟩ := ih
    exact ⟨word, List.mem_cons_of_mem _ member, here⟩

namespace MarkGrid

/-- A walk on a grid leaves its marks: under one identifier, all the ways in which it passes. -/
theorem exists_marksFrom {grid : Grid} (id : PhraseId) {words : List PlacedWord}
    (walk : IsWalk words) (inside : ∀ word ∈ words, grid.contains word.position = true)
    (long : 2 ≤ words.length) (role : PathRole) :
    ∃ marks, marksFrom id role words = .ok marks ∧ ∀ entry, entry ∈ marks ↔
      entry.2.phrase = id ∧ Passes role words entry.1 entry.2.direction entry.2.role := by
  induction words generalizing role with
  | nil => simp at long
  | cons first rest ih =>
    cases rest with
    | nil => simp at long
    | cons second rest =>
      -- The direction of the first step is found, since its cell is on the grid.
      obtain ⟨⟨direction, leads⟩, walk⟩ := List.isChain_cons_cons.mp walk
      have stepped : stepDirection id first.position second.position = .ok direction := by
        rw [stepDirection, Cell.headingTo_of_neighbor (inside first (by simp)) leads]
        rfl
      cases rest with
      | nil =>
        rw [marksFrom, stepped]
        refine ⟨_, rfl, fun entry => ?_⟩
        -- The last two words share the direction of the step between them.
        rw [List.mem_pair]
        constructor
        · rintro (rfl | rfl)
          · exact ⟨rfl, .leaves leads⟩
          · exact ⟨rfl, .arrives leads⟩
        · obtain ⟨cell, named, headed, played⟩ := entry
          rintro ⟨rfl, passes⟩
          cases passes with
          | leaves again => exact .inl (by rw [Cell.direction_unique leads again])
          | arrives again => exact .inr (by rw [Cell.direction_unique leads again])
          | later passes => cases passes
      | cons third rest =>
        -- Before that a word leaves one mark, and the rest of the path leaves the others.
        obtain ⟨later, marked, passed⟩ := ih walk
          (fun word member => inside word (by simp [member])) (by simp) .middle
        have marks : marksFrom id role (first :: second :: third :: rest) =
            .ok ((first.position, ⟨id, direction, role⟩) :: later) := by
          rw [marksFrom, stepped, marked]
          · rfl
          · simp
        refine ⟨_, marks, fun entry => ?_⟩
        rw [List.mem_cons, passed]
        constructor
        · rintro (rfl | ⟨named, passes⟩)
          · exact ⟨rfl, .leaves leads⟩
          · exact ⟨named, .later passes⟩
        · obtain ⟨cell, named, headed, played⟩ := entry
          rintro ⟨rfl, passes⟩
          cases passes with
          | leaves again => exact .inl (by rw [Cell.direction_unique leads again])
          | later passes => exact .inr ⟨rfl, passes⟩

/-- Inserting several marks adds these alone. -/
theorem mem_foldl_insert {grid : MarkGrid} {added : List (Cell × Mark)} {entry : Cell × Mark} :
    entry ∈ (added.foldl insert grid).entries ↔ entry ∈ grid.entries ∨ entry ∈ added := by
  -- One mark after the other is added.
  induction added generalizing grid with
  | nil => simp
  | cons first rest ih => rw [List.foldl_cons, ih, mem_insert, List.mem_cons, or_assoc]

/-- The marks of a cell are the entries with this cell. -/
theorem mem_marksAt_iff {grid : MarkGrid} {cell : Cell} {mark : Mark} :
    mark ∈ grid.marksAt cell ↔ (cell, mark) ∈ grid.entries := by
  -- The grid is filtered by cell.
  simp [marksAt]

/-- A walk on a grid can be marked, which adds under its identifier the ways in which it passes. -/
theorem exists_insertPath {grid : Grid} (marks : MarkGrid) (id : PhraseId) {path : Phrase}
    (walk : IsWalk path.words) (inside : ∀ word ∈ path.words, grid.contains word.position = true)
    (long : 2 ≤ path.length) :
    ∃ marked, marks.insertPath id path = .ok marked ∧
      ∀ entry, entry ∈ marked.entries ↔ entry ∈ marks.entries ∨
        entry.2.phrase = id ∧
          Passes .start path.words entry.1 entry.2.direction entry.2.role := by
  -- The marks of a walk are found without a fault, and inserting adds these alone.
  obtain ⟨added, made, passed⟩ := exists_marksFrom id walk inside long .start
  have built : marksOf id path = .ok added := by
    rw [marksOf, if_neg (Nat.not_lt.mpr long), made]
  refine ⟨added.foldl insert marks, by rw [insertPath, built]; rfl, fun entry => ?_⟩
  rw [mem_foldl_insert, passed]

end MarkGrid

/-- The number behind the identifier of a place is at most the place. -/
theorem PhraseId.toNat_le (place : Nat) : (⟨.ofNat place⟩ : PhraseId).val.toNat ≤ place := by
  -- The number wraps, which can only make it smaller.
  rw [UInt32.toNat_ofNat']
  exact Nat.mod_le _ _

namespace Findings

/-- The identifier under which a path is marked: that of the phrase with its spelling. -/
def idOf? (findings : Findings) (path : Phrase) : Option PhraseId :=
  -- The first phrase that spells so is the only one.
  (findings.phrases.findIdx? fun phrase => phrase.spelling == path.spelling).map (⟨.ofNat ·⟩)

/-- The identifier is that of the phrase which spells what the path spells. -/
def Names (findings : Findings) (id : PhraseId) (path : Phrase) : Prop :=
  -- The place is not bounded here, so that two places may share an identifier.
  ∃ place phrase, findings.phrases[place]? = some phrase ∧ phrase.spelling = path.spelling ∧
    id = ⟨.ofNat place⟩

/-- Findings that are collected from some paths: their phrases are among the paths and spell
different words, each path spells one of them, and the marks are those of the paths. -/
structure Collects (findings : Findings) (paths : List Phrase) : Prop where
  mem_paths : ∀ phrase ∈ findings.phrases, phrase ∈ paths
  distinct : (findings.phrases.map Phrase.spelling).Nodup
  spelled : ∀ path ∈ paths, ∃ phrase ∈ findings.phrases, phrase.spelling = path.spelling
  mem_marks : ∀ entry, entry ∈ findings.marks.entries ↔ ∃ path ∈ paths,
    findings.idOf? path = some entry.2.phrase ∧
      Passes .start path.words entry.1 entry.2.direction entry.2.role

/-- Before any path is added, nothing is collected. -/
theorem collects_empty : Findings.empty.Collects [] :=
  -- There is neither a phrase nor a mark.
  ⟨nofun, .nil, nofun, fun _ => ⟨nofun, fun ⟨_, listed, _⟩ => nomatch listed⟩⟩

/-- Phrases that spell different words are told apart by what they spell. -/
theorem Collects.idOf?_eq_some_iff {findings : Findings} {paths : List Phrase}
    (collects : findings.Collects paths) {path : Phrase} {id : PhraseId} :
    findings.idOf? path = some id ↔ findings.Names id path := by
  unfold idOf? Names
  rw [Option.map_eq_some_iff]
  constructor
  · rintro ⟨place, found, rfl⟩
    obtain ⟨below, same, _⟩ := List.findIdx?_eq_some_iff_getElem.mp found
    exact ⟨place, _, List.getElem?_eq_getElem below, beq_iff_eq.mp same, rfl⟩
  · rintro ⟨place, phrase, listed, same, rfl⟩
    obtain ⟨below, rfl⟩ := List.getElem?_eq_some_iff.mp listed
    refine ⟨place, List.findIdx?_eq_some_iff_getElem.mpr
      ⟨below, beq_iff_eq.mpr same, fun earlier before again => ?_⟩, rfl⟩
    -- An earlier phrase with this spelling would be this one.
    have within : earlier < (findings.phrases.map Phrase.spelling).length :=
      List.length_map Phrase.spelling ▸ before.trans below
    have spelled : (findings.phrases.map Phrase.spelling)[earlier]? =
        (findings.phrases.map Phrase.spelling)[place]? := by
      rw [List.getElem?_map, List.getElem?_map, List.getElem?_eq_getElem (before.trans below),
        List.getElem?_eq_getElem below, Option.map_some, Option.map_some, same]
      exact congrArg some (beq_iff_eq.mp again)
    exact absurd ((List.getElem?_inj within collects.distinct).mp spelled) (Nat.ne_of_lt before)

/-- Every mark is under the identifier of a phrase. -/
theorem Collects.marked {findings : Findings} {paths : List Phrase}
    (collects : findings.Collects paths) {entry : Cell × Mark}
    (listed : entry ∈ findings.marks.entries) :
    entry.2.phrase.val.toNat < findings.phrases.length := by
  -- The mark is under the identifier of some path, whose phrase has a place in the list.
  obtain ⟨path, _, named, _⟩ := (collects.mem_marks entry).mp listed
  obtain ⟨place, _, found, _, same⟩ := collects.idOf?_eq_some_iff.mp named
  obtain ⟨below, _⟩ := List.getElem?_eq_some_iff.mp found
  rw [same]
  exact Nat.lt_of_le_of_lt (PhraseId.toNat_le place) below

/-- A walk on a grid can be added to findings. -/
theorem Collects.addPath {grid : Grid} {findings : Findings} {paths : List Phrase}
    (collects : findings.Collects paths) {path : Phrase} (walk : IsWalk path.words)
    (inside : ∀ word ∈ path.words, grid.contains word.position = true)
    (long : 2 ≤ path.length) :
    ∃ after, findings.addPath path = .ok after ∧ after.Collects (paths ++ [path]) := by
  unfold Findings.addPath
  split
  · -- The spelling is known, so that only marks are added.
    rename_i place known
    obtain ⟨below, spelled, _⟩ := List.findIdx?_eq_some_iff_getElem.mp known
    obtain ⟨marks, inserted, passed⟩ :=
      findings.marks.exists_insertPath ⟨.ofNat place⟩ walk inside long
    rw [inserted]
    refine ⟨_, rfl, ?_, collects.distinct, ?_, fun entry => ?_⟩
    · intro phrase member
      exact List.mem_append_left _ (collects.mem_paths phrase member)
    · intro other member
      rcases List.mem_append.mp member with member | member
      · exact collects.spelled other member
      · rw [List.mem_singleton.mp member]
        exact ⟨_, List.getElem_mem below, beq_iff_eq.mp spelled⟩
    · have named : findings.idOf? path = some ⟨.ofNat place⟩ := by rw [idOf?, known]; rfl
      rw [passed, collects.mem_marks]
      simp only [List.mem_append, List.mem_singleton, or_and_right, exists_or, exists_eq_left]
      refine or_congr_right (and_congr_left fun _ => ?_)
      change _ ↔ findings.idOf? path = _
      rw [named, Option.some.injEq, eq_comm]
  · -- The path is a new phrase, which comes last.
    rename_i unknown
    obtain ⟨marks, inserted, passed⟩ := findings.marks.exists_insertPath
      ⟨.ofNat findings.phrases.length⟩ walk inside long
    dsimp only
    rw [inserted]
    refine ⟨_, rfl, ?_, ?_, ?_, fun entry => ?_⟩
    · intro phrase member
      exact List.mem_append.mpr ((List.mem_append.mp member).imp_left (collects.mem_paths phrase))
    · rw [List.map_append, List.map_singleton]
      refine List.nodup_append.mpr ⟨collects.distinct, List.nodup_singleton _, ?_⟩
      intro words spelled _ last same
      obtain ⟨phrase, listed, rfl⟩ := List.mem_map.mp spelled
      have differs := List.findIdx?_eq_none_iff.mp unknown phrase listed
      rw [same, List.mem_singleton.mp last, beq_self_eq_true] at differs
      cases differs
    · intro other member
      rcases List.mem_append.mp member with member | member
      · obtain ⟨phrase, listed, same⟩ := collects.spelled other member
        exact ⟨phrase, List.mem_append_left _ listed, same⟩
      · rw [List.mem_singleton.mp member]
        exact ⟨path, List.mem_append_right _ (List.mem_singleton.mpr rfl), rfl⟩
    · -- The identifiers of the other paths stay, for each spells an earlier phrase.
      let after : Findings := ⟨findings.phrases ++ [path], marks⟩
      have kept : ∀ other ∈ paths, after.idOf? other = findings.idOf? other := by
        intro other member
        obtain ⟨phrase, listed, same⟩ := collects.spelled other member
        have found : (findings.phrases.findIdx? fun phrase =>
            phrase.spelling == other.spelling).isSome = true :=
          List.findIdx?_isSome.trans (List.any_eq_true.mpr ⟨phrase, listed, beq_iff_eq.mpr same⟩)
        obtain ⟨place, found⟩ := Option.isSome_iff_exists.mp found
        rw [idOf?, idOf?, List.findIdx?_append, found]
        rfl
      have named : after.idOf? path = some ⟨.ofNat findings.phrases.length⟩ := by
        rw [idOf?, List.findIdx?_append, unknown]
        simp
      change entry ∈ marks.entries ↔ ∃ other ∈ paths ++ [path], after.idOf? other = _ ∧ _
      rw [passed, collects.mem_marks]
      simp only [List.mem_append, List.mem_singleton, or_and_right, exists_or, exists_eq_left]
      refine or_congr (exists_congr fun other => and_congr_right fun member => ?_)
        (and_congr_left fun _ => ?_)
      · rw [kept other member]
      · rw [named, Option.some.injEq, eq_comm]

/-- Walks on a grid can be added to findings one after the other. -/
theorem Collects.foldlM_addPath {grid : Grid} {findings : Findings} {earlier paths : List Phrase}
    (collects : findings.Collects earlier)
    (walks : ∀ path ∈ paths, IsWalk path.words ∧
      (∀ word ∈ path.words, grid.contains word.position = true) ∧ 2 ≤ path.length) :
    ∃ after, paths.foldlM Findings.addPath findings = .ok after ∧
      after.Collects (earlier ++ paths) := by
  -- Each path is added to findings that collect those before it.
  induction paths generalizing findings earlier with
  | nil => exact ⟨findings, rfl, by rwa [List.append_nil]⟩
  | cons first rest ih =>
    obtain ⟨walk, inside, long⟩ := walks first (by simp)
    obtain ⟨next, added, collects⟩ := collects.addPath walk inside long
    obtain ⟨after, folded, collects⟩ := ih collects fun path member => walks path (by simp [member])
    refine ⟨after, ?_, by rwa [List.append_assoc, List.singleton_append] at collects⟩
    rw [List.foldlM_cons, added]
    exact folded

/-- Findings whose phrases are sentences pass their check. -/
theorem Collects.check {shown : PlacedWord → Prop} {config : Config} {findings : Findings}
    {paths : List Phrase} (collects : findings.Collects paths)
    (sentences : ∀ path ∈ paths, Sentence.IsSentence shown config path.words) :
    findings.check = .ok () := by
  -- Phrases are sentences, whose length and steps are known, and marks are under phrases.
  have passes : ∀ phrase ∈ findings.phrases, checkPhrase phrase = .ok () := by
    intro phrase member
    obtain ⟨parse, valid, words⟩ := sentences phrase (collects.mem_paths phrase member)
    have long := valid.minWords_le
    have unbroken := Phrase.adjacentWords_of_isWalk valid.isWalk
    rw [words] at long unbroken
    unfold checkPhrase Phrase.isUnbroken Phrase.length
    rw [if_neg (Nat.not_lt.mpr long), unbroken]
    rfl
  -- A check of each phrase is a check of all of them.
  have all (phrases : List Phrase) (each : ∀ phrase ∈ phrases, checkPhrase phrase = .ok ()) :
      phrases.forM checkPhrase = .ok () := by
    induction phrases with
    | nil => rfl
    | cons first rest ih =>
      rw [List.forM, each first (by simp)]
      exact ih fun phrase member => each phrase (by simp [member])
  have marks : findings.marks.check findings.phrases.length = .ok () := by
    rw [MarkGrid.check, if_pos]
    exact List.all_eq_true.mpr fun entry member => decide_eq_true (collects.marked member)
  rw [Findings.check, all findings.phrases passes]
  exact marks

end Findings

/-- A sentence is a walk on the grid that has two words or more. -/
theorem Sentence.IsSentence.walks {board : Board} {config : Config} {words : List PlacedWord}
    (sentence : IsSentence board.Shows config words) :
    IsWalk words ∧ (∀ word ∈ words, board.contains word.position = true) ∧ 2 ≤ words.length := by
  -- All three are known of the parse.
  obtain ⟨parse, valid, rfl⟩ := sentence
  exact ⟨valid.isWalk, fun word listed => (valid.shown word listed).1,
    Nat.le_of_succ_le valid.minWords_le⟩

/-- A search of a board that shows each tile once finds the phrases of the surviving paths, and its
findings pass their check. -/
theorem Board.search_spec {board : Board} (single : board.Single) (config : Config) :
    ∃ kept findings, board.paths config = .ok kept ∧
      (∀ path : Phrase, path ∈ kept ↔ Sentence.IsOutermost board.Shows config path.words ∧
        Sentence.Prevails board.Shows config path.words) ∧
      board.search config = .ok findings ∧ findings.Collects kept ∧ findings.check = .ok () := by
  -- The paths that survive are sentences, and so each of them can be collected.
  obtain ⟨found, searched, _, maximal⟩ := Agenda.sentences_spec single config
  obtain ⟨kept, dropped, _, survives⟩ := Prune.dropReversals_dropTails_spec single maximal
  have paths : board.paths config = .ok kept := by
    rw [Board.paths, searched]
    exact dropped
  have sentences : ∀ path ∈ kept, Sentence.IsSentence board.Shows config path.words :=
    fun path member => ((survives path).mp member).1.1.1
  obtain ⟨findings, folded, collects⟩ :=
    Findings.collects_empty.foldlM_addPath fun path member => (sentences path member).walks
  rw [List.nil_append] at collects
  refine ⟨kept, findings, paths, survives, ?_, collects, collects.check sentences⟩
  rw [Board.search_eq, paths]
  exact folded

end WordTiles
