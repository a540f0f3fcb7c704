import WordTiles.Proofs.Sentence.Survivors

/-! The order of discovery: sentences are found by the cell of their first word, row by row, and of
those that spell the same the first one counts. -/

namespace WordTiles

/-- One cell comes before another when cells are read row by row. -/
def Cell.ReadBefore (a b : Cell) : Prop :=
  -- Rows are read from the top, and each from the left.
  a.r < b.r ∨ a.r = b.r ∧ a.q < b.q

/-- No cell is read before itself. -/
instance : Std.Irrefl Cell.ReadBefore where
  irrefl cell := by simp [Cell.ReadBefore, Int32.lt_irrefl]

/-- Of two cells at most one is read before the other. -/
instance : Std.Antisymm Cell.ReadBefore where
  antisymm a b before after := by
    unfold Cell.ReadBefore at before after
    simp only [Int32.lt_iff_toInt_lt, ← Int32.toInt_inj] at before after
    omega

/-- The cells of a grid are listed row by row. -/
theorem Grid.pairwise_cells (grid : Grid) : grid.cells.Pairwise Cell.ReadBefore := by
  -- Within a row the columns ascend, and so do the rows.
  have ascend (extent : Int32) : (List.range extent.toNatClampNeg).Pairwise fun a b =>
      Int32.ofNat a < Int32.ofNat b := by
    refine List.pairwise_lt_range.imp_of_mem fun {a b} left right less => ?_
    obtain ⟨one, _⟩ := toInt_ofNat_of_lt (List.mem_range.mp left)
    obtain ⟨other, _⟩ := toInt_ofNat_of_lt (List.mem_range.mp right)
    rw [Int32.lt_iff_toInt_lt, one, other]
    exact Int.ofNat_lt.mpr less
  refine List.pairwise_flatMap.mpr ⟨fun r _ => ?_, ?_⟩
  · exact List.pairwise_map.mpr ((ascend _).imp fun less => .inr ⟨rfl, less⟩)
  · refine (ascend _).imp fun less cell one other two => ?_
    obtain ⟨_, _, rfl⟩ := List.mem_map.mp one
    obtain ⟨_, _, rfl⟩ := List.mem_map.mp two
    exact .inl less

/-- Two phrases have a first word each, and that of the second is not read before that of the
first. -/
def Phrase.FoundBefore (a b : Phrase) : Prop :=
  -- Of two phrases that start on one cell either may be found first.
  ∃ first second, a.firstCell = .ok first ∧ b.firstCell = .ok second ∧
    (first = second ∨ first.ReadBefore second)

/-- The drafts that begin on a cell have their one word there. -/
theorem Agenda.position_of_mem_starts {board : Board} {cell : Cell} {draft : Draft}
    (begins : draft ∈ ((board.tiles cell).filter (·.word.isNoun)).flatMap fun tile =>
      Direction.all.map (Draft.start cell tile)) : draft.last.position = cell := by
  -- The draft is started at the cell itself.
  obtain ⟨_, _, begins⟩ := List.mem_flatMap.mp begins
  obtain ⟨_, _, rfl⟩ := List.mem_map.mp begins
  rfl

/-- Sentences are found by the cell of their first word. -/
theorem Agenda.pairwise_sentences (board : Board) (config : Config) :
    ((starts board).flatMap (Draft.readings board config)).Pairwise Phrase.FoundBefore := by
  -- A reading starts on the cell of its draft.
  have starting {draft : Draft} (begins : draft ∈ starts board) {phrase : Phrase}
      (member : phrase ∈ draft.readings board config) :
      phrase.firstCell = .ok draft.last.position := by
    obtain ⟨next, rest, words, _⟩ := Draft.second_of_mem_readings begins member
    rw [Phrase.firstCell, words]
  refine List.pairwise_flatMap.mpr ⟨fun draft begins => ?_, ?_⟩
  · refine List.pairwise_of_forall_mem_list fun a left b right => ?_
    exact ⟨_, _, starting begins left, starting begins right, .inl rfl⟩
  · -- The drafts are listed by their cells.
    have ordered : (starts board).Pairwise fun a b => a.last.position = b.last.position ∨
        a.last.position.ReadBefore b.last.position := by
      refine List.pairwise_flatMap.mpr ⟨fun cell _ => ?_, ?_⟩
      · refine List.pairwise_of_forall_mem_list fun a left b right => .inl ?_
        rw [position_of_mem_starts left, position_of_mem_starts right]
      · refine (Grid.pairwise_cells board.toGrid).imp fun before a left b right => .inr ?_
        rw [position_of_mem_starts left, position_of_mem_starts right]
        exact before
    refine ordered.imp_of_mem fun left right order a one b other => ?_
    exact ⟨_, _, starting left one, starting right other, order⟩

namespace Prune

/-- There is one heading for each path. -/
theorem length_headings {paths : List Phrase} {headings : List (Option Direction)}
    (found : paths.mapM Phrase.heading = .ok headings) : headings.length = paths.length := by
  -- By induction on the paths, of which each adds its heading in front.
  induction paths generalizing headings with
  | nil =>
    cases found
    rfl
  | cons first rest ih =>
    rw [List.mapM_cons] at found
    obtain ⟨heading, _, found⟩ := bind_eq_ok_iff.mp found
    obtain ⟨others, later, found⟩ := bind_eq_ok_iff.mp found
    cases found
    rw [List.length_cons, List.length_cons, ih later]

/-- The candidates of some paths are these paths, in their order. -/
theorem map_phrase_candidates {paths : List Phrase} {field : List Candidate}
    (listed : candidates paths = .ok field) : field.map (·.phrase) = paths := by
  -- Directions and places are added to the paths and dropped again.
  obtain ⟨headings, found, listed⟩ := bind_eq_ok_iff.mp listed
  cases listed
  rw [List.map_map]
  change (paths.zip headings).zipIdx.map (Prod.fst ∘ Prod.fst) = paths
  rw [← List.map_map, List.zipIdx_map_fst, List.map_fst_zip (length_headings found).ge]

/-- The filter of reversals changes no order. -/
theorem dropReversals_sublist {paths kept : List Phrase}
    (dropped : dropReversals paths = .ok kept) : kept.Sublist paths := by
  -- The candidates are filtered, and they stand in the order of the paths.
  obtain ⟨field, listed, dropped⟩ := bind_eq_ok_iff.mp dropped
  cases dropped
  rw [← map_phrase_candidates listed]
  exact List.filter_sublist.map _

end Prune

/-- The surviving paths of a board come in the order of discovery. -/
theorem Board.pairwise_paths {board : Board} {config : Config} {kept : List Phrase}
    (survived : board.paths config = .ok kept) : kept.Pairwise Phrase.FoundBefore := by
  -- Neither filter changes the order.
  unfold paths at survived
  rw [Agenda.sentences_eq] at survived
  refine (Agenda.pairwise_sentences board config).sublist ?_
  exact (Prune.dropReversals_sublist survived).trans List.filter_sublist

namespace Findings

variable {test : List Word → Bool}

/-- Among phrases and among the paths they are collected from, the first with a spelling of some
kind is the same. -/
theorem find?_addPath {findings after : Findings} {earlier : List Phrase} {path : Phrase}
    (same : findings.phrases.find? (test ·.spelling) = earlier.find? (test ·.spelling))
    (added : findings.addPath path = .ok after) :
    after.phrases.find? (test ·.spelling) = (earlier ++ [path]).find? (test ·.spelling) := by
  unfold addPath at added
  split at added
  · -- A path whose spelling is known comes too late.
    rename_i place known
    obtain ⟨marks, _, added⟩ := bind_eq_ok_iff.mp added
    cases added
    obtain ⟨below, spelled, _⟩ := List.findIdx?_eq_some_iff_getElem.mp known
    have listed : findings.phrases[place] ∈ findings.phrases := List.getElem_mem below
    rw [List.find?_append, ← same]
    cases found : findings.phrases.find? (test ·.spelling) with
    | some phrase => rfl
    | none =>
      have fails := List.find?_eq_none.mp found _ listed
      rw [beq_iff_eq.mp spelled] at fails
      simp [fails]
  · obtain ⟨marks, _, added⟩ := bind_eq_ok_iff.mp added
    cases added
    rw [List.find?_append, List.find?_append, same]

/-- So it is when paths are added one after the other. -/
theorem find?_foldlM_addPath {findings after : Findings} {earlier paths : List Phrase}
    (same : findings.phrases.find? (test ·.spelling) = earlier.find? (test ·.spelling))
    (folded : paths.foldlM addPath findings = .ok after) :
    after.phrases.find? (test ·.spelling) = (earlier ++ paths).find? (test ·.spelling) := by
  -- By induction on the paths, of which each is added to those that came earlier.
  induction paths generalizing findings earlier with
  | nil =>
    cases folded
    rw [List.append_nil, same]
  | cons first rest ih =>
    rw [List.foldlM_cons] at folded
    obtain ⟨next, added, folded⟩ := bind_eq_ok_iff.mp folded
    rw [ih (find?_addPath same added) folded, List.append_assoc, List.singleton_append]

end Findings

/-- Of the surviving paths with a spelling of some kind the search lists the first one, and all
others start on the same cell or are read after it. -/
theorem Board.find?_search {board : Board} {config : Config} {findings : Findings}
    (searched : board.search config = .ok findings) :
    ∃ kept, board.paths config = .ok kept ∧ kept.Pairwise Phrase.FoundBefore ∧
      ∀ test : List Word → Bool,
        findings.phrases.find? (test ·.spelling) = kept.find? (test ·.spelling) := by
  -- The search starts from nothing, and adds the surviving paths in order.
  rw [search_eq] at searched
  obtain ⟨kept, survived, folded⟩ := bind_eq_ok_iff.mp searched
  refine ⟨kept, survived, pairwise_paths survived, fun test => ?_⟩
  have nothing : Findings.empty.phrases.find? (test ·.spelling) = [].find? (test ·.spelling) := rfl
  exact Findings.find?_foldlM_addPath nothing folded

end WordTiles
