import WordTiles.Proofs.Sentence.Found
import WordTiles.Proofs.Sentence.Shifting

/-! A search sees only how the words lie relative to each other: the same words at another place, on
a grid of other extents and among other objects, make the same phrases and the same marks there. -/

namespace WordTiles

variable {board other : Board} {config : Config} {offset : Int × Int}

/-- Each of the words lies on a cell of the board that has words. -/
def Board.Holds (board : Board) (words : List PlacedWord) : Prop :=
  -- A shift keeps such words on both grids, whatever else their cells hold.
  ∀ word ∈ words, board.tiles word.position ≠ []

namespace Phrase

/-- The entities are the same at another place. -/
@[simp] theorem entities_shift (phrase : Phrase) :
    (phrase.shift offset).entities = phrase.entities := by
  -- A shift changes the places of the words only.
  rw [entities, entities, shift, List.map_map]
  rfl

/-- The spelling is the same at another place. -/
@[simp] theorem spelling_shift (phrase : Phrase) :
    (phrase.shift offset).spelling = phrase.spelling := by
  -- Here too, since the words themselves are kept.
  rw [spelling, spelling, shift, List.map_map]
  rfl

/-- Phrases with words have words at another place. -/
theorem words_shift_ne_nil {paths : List Phrase} (nonempty : ∀ path ∈ paths, path.words ≠ []) :
    ∀ path ∈ paths.map (shift offset), path.words ≠ [] := by
  -- A phrase at another place has as many words.
  intro moved given
  obtain ⟨path, listed, rfl⟩ := List.mem_map.mp given
  exact mt List.map_eq_nil_iff.mp (nonempty path listed)

/-- The first step goes in the same direction at another place. -/
theorem heading_shift (shifts : board.ShiftsTo offset other) {phrase : Phrase}
    (holds : board.Holds phrase.words) : (phrase.shift offset).heading = phrase.heading := by
  -- Only two words have a step, and both cells are on their grid.
  obtain ⟨words⟩ := phrase
  rcases words with _ | ⟨first, _ | ⟨second, rest⟩⟩
  · rfl
  · rfl
  · obtain ⟨inside, inside'⟩ := shifts.inside (holds first (by simp))
    exact Cell.headingTo_shift inside inside' second.position

end Phrase

namespace Prune

/-- The paths that are no tails are the same at another place. -/
theorem dropTails_shift {paths : List Phrase} (nonempty : ∀ path ∈ paths, path.words ≠ []) :
    dropTails (paths.map (Phrase.shift offset)) = (dropTails paths).map (Phrase.shift offset) := by
  -- Tails are told by their entities, which stay.
  rw [dropTails_eq nonempty, dropTails_eq (Phrase.words_shift_ne_nil nonempty), List.filter_map]
  refine congrArg (List.map _) (congrArg (List.filter · paths) (funext fun path => ?_))
  simp [List.any_map, Function.comp_def]

/-- The candidate at another place. -/
def Candidate.shift (offset : Int × Int) (candidate : Candidate) : Candidate :=
  -- The heading and the index of a candidate belong to no place.
  { candidate with phrase := candidate.phrase.shift offset }

/-- A candidate loses to the same others at another place. -/
theorem Candidate.losesTo_shift (candidate rival : Candidate) :
    (candidate.shift offset).losesTo (rival.shift offset) = candidate.losesTo rival := by
  -- The test compares entities, headings and indices, and a shift keeps them all.
  have same (candidate : Candidate) :
      (candidate.shift offset).phrase.entities = candidate.phrase.entities :=
    candidate.phrase.entities_shift
  unfold losesTo
  rw [same, same]
  rfl

/-- The paths have the same headings at another place. -/
theorem mapM_heading_shift (shifts : board.ShiftsTo offset other) {paths : List Phrase}
    (holds : ∀ path ∈ paths, board.Holds path.words) :
    (paths.map (Phrase.shift offset)).mapM Phrase.heading = paths.mapM Phrase.heading := by
  -- By induction on the paths, since each heading is computed from one path alone.
  induction paths with
  | nil => rfl
  | cons first rest ih =>
    rw [List.map_cons, List.mapM_cons, List.mapM_cons,
      Phrase.heading_shift shifts (holds first (by simp)),
      ih fun path listed => holds path (by simp [listed])]

/-- The candidates are the same at another place. -/
theorem candidates_shift (shifts : board.ShiftsTo offset other) {paths : List Phrase}
    (holds : ∀ path ∈ paths, board.Holds path.words) {field : List Candidate}
    (built : candidates paths = .ok field) :
    candidates (paths.map (Phrase.shift offset)) = .ok (field.map (Candidate.shift offset)) := by
  -- The candidates pair the paths with their headings, which are the same.
  obtain ⟨headings, found, built⟩ := bind_eq_ok_iff.mp built
  cases built
  rw [candidates, mapM_heading_shift shifts holds, found]
  simp only [Bind.bind, Except.bind, Pure.pure, Except.pure, List.zip_map_left, List.zipIdx_map,
    List.map_map]
  rfl

/-- The paths that lose to no other are the same at another place. -/
theorem dropReversals_shift (shifts : board.ShiftsTo offset other) {paths kept : List Phrase}
    (nonempty : ∀ path ∈ paths, path.words ≠ []) (holds : ∀ path ∈ paths, board.Holds path.words)
    (dropped : dropReversals paths = .ok kept) :
    dropReversals (paths.map (Phrase.shift offset)) = .ok (kept.map (Phrase.shift offset)) := by
  -- Both filters are in closed form here, and there they ask the same of every pair.
  obtain ⟨field, built, _⟩ := bind_eq_ok_iff.mp dropped
  have phrases := map_phrase_candidates built
  have built' := candidates_shift shifts holds built
  rw [dropReversals_eq nonempty built phrases, Except.ok.injEq] at dropped
  rw [dropReversals_eq (Phrase.words_shift_ne_nil nonempty) built' (map_phrase_candidates built'),
    ← dropped, List.map_map, List.filter_map, List.map_map]
  refine congrArg Except.ok (congrArg (List.map _) (congrArg (List.filter · field) ?_))
  funext candidate
  simp [List.any_map, Function.comp_def, Candidate.losesTo_shift]

end Prune

namespace MarkGrid

/-- The marks at another place. -/
def shift (offset : Int × Int) (grid : MarkGrid) : MarkGrid where
  -- Different cells stay different, and with them the entries.
  entries := grid.entries.map (Prod.map (Cell.shift offset) id)
  nodup := grid.nodup.map ((Cell.shift_injective offset).prodMap Function.injective_id)

/-- A mark is inserted at another place as it is here. -/
theorem insert_shift (grid : MarkGrid) (entry : Cell × Mark) :
    (grid.shift offset).insert (entry.map (Cell.shift offset) id) =
      (grid.insert entry).shift offset := by
  -- No other mark is shifted to this one.
  have present : entry.map (Cell.shift offset) id ∈ (grid.shift offset).entries ↔
      entry ∈ grid.entries :=
    List.mem_map_of_injective ((Cell.shift_injective offset).prodMap Function.injective_id)
  unfold insert
  by_cases listed : entry ∈ grid.entries
  · rw [dif_pos listed, dif_pos (present.mpr listed)]
  · rw [dif_neg listed, dif_neg (mt present.mp listed)]
    simp [shift]

/-- A step goes in the same direction at another place. -/
theorem stepDirection_shift (shifts : board.ShiftsTo offset other) {id : PhraseId}
    {source target : Cell} (lies : board.tiles source ≠ []) {direction : Direction}
    (stepped : stepDirection id source target = .ok direction) :
    stepDirection id (source.shift offset) (target.shift offset) = .ok direction := by
  -- The step is the difference of two cells that are moved by the same distance.
  obtain ⟨inside, inside'⟩ := shifts.inside lies
  unfold stepDirection at stepped ⊢
  obtain ⟨heading, found, stepped⟩ := bind_eq_ok_iff.mp stepped
  rw [Cell.headingTo_shift inside inside', found]
  cases heading with
  | none => cases stepped
  | some direction => exact stepped

/-- A path leaves the same marks at another place. -/
theorem marksFrom_shift (shifts : board.ShiftsTo offset other) {name : PhraseId} {role : PathRole}
    {words : List PlacedWord} (holds : board.Holds words) {marks : List (Cell × Mark)}
    (made : marksFrom name role words = .ok marks) :
    marksFrom name role (words.map (PlacedWord.shift offset)) =
      .ok (marks.map (Prod.map (Cell.shift offset) id)) := by
  -- The steps go in the same directions, one after the other.
  fun_induction marksFrom name role words generalizing marks with
  | case1 role first last =>
    -- The last two words leave two marks for one step.
    obtain ⟨direction, stepped, made⟩ := bind_eq_ok_iff.mp made
    cases made
    have stepped' := stepDirection_shift shifts (holds first (by simp)) stepped
    simp only [List.map_cons, List.map_nil, marksFrom]
    exact bind_eq_ok_iff.mpr ⟨direction, stepped', rfl⟩
  | case2 role first second rest more ih =>
    obtain ⟨direction, stepped, made⟩ := bind_eq_ok_iff.mp made
    -- Every word before leaves the mark of its own step.
    obtain ⟨later, marked, made⟩ := bind_eq_ok_iff.mp made
    cases made
    have stepped' := stepDirection_shift shifts (holds first (by simp)) stepped
    have marked' := ih (fun word listed => holds word (by simp [listed])) marked
    rw [List.map_cons, List.map_cons, marksFrom]
    · exact bind_eq_ok_iff.mpr ⟨direction, stepped', bind_eq_ok_iff.mpr ⟨_, marked', rfl⟩⟩
    · exact fun last => more (List.map_eq_nil_iff.mp last)
  | case3 words role pair longer =>
    cases made
    -- Fewer than two words leave no mark.
    rcases words with _ | ⟨first, _ | ⟨second, rest⟩⟩
    · rfl
    · rfl
    · exact (longer first second rest rfl).elim

/-- A path is marked at another place as it is here. -/
theorem insertPath_shift (shifts : board.ShiftsTo offset other) {grid marked : MarkGrid}
    {name : PhraseId} {path : Phrase} (holds : board.Holds path.words)
    (inserted : grid.insertPath name path = .ok marked) :
    (grid.shift offset).insertPath name (path.shift offset) = .ok (marked.shift offset) := by
  obtain ⟨added, made, inserted⟩ := bind_eq_ok_iff.mp inserted
  cases inserted
  -- The same marks are made, and then inserted one by one.
  have made' : marksOf name (path.shift offset) =
      .ok (added.map (Prod.map (Cell.shift offset) id)) := by
    unfold marksOf at made ⊢
    have length : (path.shift offset).length = path.length := List.length_map _
    rw [length]
    split at made
    · cases made
    · rename_i long
      rw [if_neg long]
      exact marksFrom_shift shifts holds made
  refine bind_eq_ok_iff.mpr ⟨_, made', congrArg Except.ok ?_⟩
  clear inserted made made'
  induction added generalizing grid with
  | nil => rfl
  | cons first rest ih => rw [List.map_cons, List.foldl_cons, List.foldl_cons, insert_shift, ih]

end MarkGrid

namespace Findings

/-- The findings at another place. -/
def shift (offset : Int × Int) (findings : Findings) : Findings :=
  -- Phrases and marks move together, and identifiers are kept.
  ⟨findings.phrases.map (Phrase.shift offset), findings.marks.shift offset⟩

/-- A path is added at another place as it is here. -/
theorem addPath_shift (shifts : board.ShiftsTo offset other) {findings after : Findings}
    {path : Phrase} (holds : board.Holds path.words) (added : findings.addPath path = .ok after) :
    (findings.shift offset).addPath (path.shift offset) = .ok (after.shift offset) := by
  -- The spelling of the path is looked up among the same spellings.
  have place : ((findings.shift offset).phrases.findIdx? fun phrase =>
      phrase.spelling == (path.shift offset).spelling) =
        findings.phrases.findIdx? fun phrase => phrase.spelling == path.spelling := by
    rw [shift, List.findIdx?_map]
    simp [Function.comp_def]
  unfold addPath at added ⊢
  rw [place]
  split at added
  · obtain ⟨marked, inserted, added⟩ := bind_eq_ok_iff.mp added
    cases added
    exact bind_eq_ok_iff.mpr ⟨_, MarkGrid.insertPath_shift shifts holds inserted, rfl⟩
  · obtain ⟨marked, inserted, added⟩ := bind_eq_ok_iff.mp added
    cases added
    -- A new phrase takes the same number in both.
    have length : (findings.shift offset).phrases.length = findings.phrases.length :=
      List.length_map _
    dsimp only
    rw [length]
    refine bind_eq_ok_iff.mpr ⟨_, MarkGrid.insertPath_shift shifts holds inserted, ?_⟩
    simp [shift, Pure.pure, Except.pure]

/-- Paths are added at another place as they are here. -/
theorem foldlM_addPath_shift (shifts : board.ShiftsTo offset other) {paths : List Phrase}
    (holds : ∀ path ∈ paths, board.Holds path.words) {findings after : Findings}
    (folded : paths.foldlM addPath findings = .ok after) :
    (paths.map (Phrase.shift offset)).foldlM addPath (findings.shift offset) =
      .ok (after.shift offset) := by
  -- By induction on the paths that are still to be added, for any findings to begin with.
  induction paths generalizing findings with
  | nil =>
    cases folded
    rfl
  | cons first rest ih =>
    rw [List.foldlM_cons] at folded
    obtain ⟨next, added, folded⟩ := bind_eq_ok_iff.mp folded
    rw [List.map_cons, List.foldlM_cons, addPath_shift shifts (holds first (by simp)) added]
    exact ih (fun path listed => holds path (by simp [listed])) folded

end Findings

namespace Board

open Sentence

/-- The words of a sentence lie on cells with words. -/
theorem holds_of_isSentence {words : List PlacedWord}
    (sentence : IsSentence board.Shows config words) : board.Holds words :=
  -- A word that shows is a tile of its cell.
  fun word member => List.ne_nil_of_mem (sentence.shows word member).2

/-- The same paths survive at another place. -/
theorem paths_shift (single : board.Single) (shifts : board.ShiftsTo offset other)
    {kept : List Phrase} (survived : board.paths config = .ok kept) :
    other.paths config = .ok (kept.map (Phrase.shift offset)) := by
  obtain ⟨found, searched, _, maximal⟩ := Agenda.sentences_spec single config
  have same := Except.ok.inj (Agenda.sentences_eq.symm.trans searched)
  have moved : Agenda.sentences other config = .ok (found.map (Phrase.shift offset)) := by
    rw [Agenda.sentences_eq, Agenda.sentences_shift shifts, same]
  -- Each of the paths is a sentence, so it has words, which lie on cells with words.
  have sentences : ∀ path ∈ found, IsSentence board.Shows config path.words :=
    fun path listed => ((maximal path).mp listed).1
  have subset : ∀ path ∈ Prune.dropTails found, path ∈ found :=
    fun path listed => List.mem_of_mem_filter listed
  have nonempty : ∀ path ∈ found, path.words ≠ [] :=
    fun path listed => (sentences path listed).ne_nil
  unfold paths at survived ⊢
  rw [searched] at survived
  rw [moved]
  change Prune.dropReversals (Prune.dropTails _) = _
  rw [Prune.dropTails_shift nonempty]
  exact Prune.dropReversals_shift shifts (fun path listed => nonempty path (subset path listed))
    (fun path listed => holds_of_isSentence (sentences path (subset path listed))) survived

/-- A search finds the same at another place. -/
theorem search_shift (single : board.Single) (shifts : board.ShiftsTo offset other)
    {kept : List Phrase} {findings : Findings} (survived : board.paths config = .ok kept)
    (sentences : ∀ path ∈ kept, IsSentence board.Shows config path.words)
    (searched : board.search config = .ok findings) :
    other.search config = .ok (findings.shift offset) := by
  -- What survives is the same by the pipeline so far, and it is added the same.
  rw [search_eq, survived] at searched
  rw [search_eq, paths_shift single shifts survived]
  exact Findings.foldlM_addPath_shift shifts
    (fun path listed => holds_of_isSentence (sentences path listed)) searched

end Board

/-- One word lies so far from another, and is the same word of the same entity in the same part. -/
structure PlacedWord.LiesOff (offset : Int × Int) (here there : PlacedWord) : Prop where
  position : here.position.LiesOff offset there.position
  word : there.word = here.word
  entity : there.entity = here.entity
  part : there.part = here.part

/-- Findings that are the same but for their place: phrase by phrase, in order, and mark by mark. -/
structure Findings.LiesOff (offset : Int × Int) (findings moved : Findings) : Prop where
  phrases : List.Forall₂ (fun phrase other : Phrase =>
    List.Forall₂ (PlacedWord.LiesOff offset) phrase.words other.words)
      findings.phrases moved.phrases
  marks : List.Forall₂ (fun entry other : Cell × Mark =>
    entry.1.LiesOff offset other.1 ∧ other.2 = entry.2)
      findings.marks.entries moved.marks.entries

/-- Findings on cells with words are shifted without leaving the range of coordinates. -/
theorem Board.ShiftsTo.liesOff (shifts : board.ShiftsTo offset other) {findings : Findings}
    (phrases : ∀ phrase ∈ findings.phrases, board.Holds phrase.words)
    (marks : ∀ entry ∈ findings.marks.entries, board.tiles entry.1 ≠ []) :
    findings.LiesOff offset (findings.shift offset) := by
  -- Each word lies on a tiled cell, for which the shift is known to stay in range.
  have same {α : Type} {related : α → α → Prop} {change : α → α} {list : List α}
      (each : ∀ item ∈ list, related item (change item)) :
      List.Forall₂ related list (list.map change) :=
    List.forall₂_map_right_iff.mpr (List.forall₂_same.mpr each)
  constructor
  · exact same fun phrase listed => same fun word member =>
      ⟨shifts.off _ (phrases phrase listed word member), rfl, rfl, rfl⟩
  · exact same fun entry listed => ⟨shifts.off _ (marks entry listed), rfl⟩

namespace World

/-- The other world has the word tiles of this one so far away, in the same order on each cell, and
no word tiles besides. -/
structure LaysOut (offset : Int × Int) (world other : World) : Prop where
  led : ∀ cell, world.board.tiles cell ≠ [] → ∃ moved, cell.LiesOff offset moved ∧
    other.board.tiles moved = world.board.tiles cell
  origin : ∀ moved, other.board.tiles moved ≠ [] → ∃ cell : Cell, cell.LiesOff offset moved ∧
    world.board.tiles cell ≠ []

/-- The word tiles of a consistent world lie on its grid. -/
theorem Consistent.isFramed {world : World} (consistent : world.Consistent) :
    world.board.IsFramed := by
  -- A tile belongs to an entity that stands on its cell, and entities stand on the grid.
  intro cell some
  obtain ⟨tile, lies⟩ := List.exists_mem_of_ne_nil _ some
  obtain ⟨entity, stands, _⟩ := List.mem_filterMap.mp lies
  obtain ⟨live, here⟩ := consistent.mem_occupants_iff.mp stands
  exact here ▸ consistent.inside entity live

/-- Worlds with one layout have boards with one layout. -/
theorem LaysOut.shiftsTo {world other : World} (layout : world.LaysOut offset other)
    (framed : world.board.IsFramed) (framed' : other.board.IsFramed) :
    world.board.ShiftsTo offset other.board := by
  -- Where no word lies here, none can have been led there.
  have tiles : ∀ cell, other.board.tiles (cell.shift offset) = world.board.tiles cell := by
    intro cell
    by_cases bare : world.board.tiles cell = []
    · by_contra differ
      rw [bare] at differ
      obtain ⟨source, off, some⟩ := layout.origin _ differ
      rw [Cell.shift_injective offset off.shift_eq] at some
      exact some bare
    · obtain ⟨moved, off, same⟩ := layout.led cell bare
      rw [off.shift_eq, same]
  refine ⟨framed, framed', tiles, fun cell lies => ?_, fun moved lies => ?_⟩
  · obtain ⟨moved, off, _⟩ := layout.led cell lies
    rwa [off.shift_eq]
  · obtain ⟨cell, off, _⟩ := layout.origin moved lies
    exact ⟨cell, off.shift_eq⟩

/-- A search sees only the layout of the word tiles: where two worlds have one layout, whatever
their grids and whatever else stands on them, it finds the same phrases in the same order and the
same marks, as far away as the words are. -/
theorem Reachable.search_layout {world other : World} (reachable : world.Reachable)
    (reachable' : other.Reachable) (layout : world.LaysOut offset other) (config : Config) :
    ∃ findings moved, world.search config = .ok findings ∧ other.search config = .ok moved ∧
      findings.LiesOff offset moved := by
  -- Phrases and marks are those of sentences, whose words all lie on cells with words.
  have shifts := layout.shiftsTo reachable.consistent.isFramed reachable'.consistent.isFramed
  have single := reachable.consistent.single_board
  obtain ⟨kept, findings, survived, survives, searched, collects, _⟩ :=
    Board.search_spec single config
  have sentences : ∀ path ∈ kept, Sentence.IsSentence world.board.Shows config path.words :=
    fun path listed => ((survives path).mp listed).1.1.1
  refine ⟨findings, findings.shift offset, searched,
    Board.search_shift single shifts survived sentences searched, shifts.liesOff ?_ ?_⟩
  · exact fun phrase listed =>
      Board.holds_of_isSentence (sentences phrase (collects.mem_paths phrase listed))
  · intro entry listed
    obtain ⟨path, listed, _, passes⟩ := (collects.mem_marks entry).mp listed
    obtain ⟨word, member, here⟩ := passes.exists_word
    exact here ▸ Board.holds_of_isSentence (sentences path listed) word member

/-- A rule in the only row of one grid, and in a corner of another with a wall in front of it and a
rock on top. -/
theorem search_layout_rockIsPush : ∃ world bare ids other findings moved,
    row [.rock, .is, .push] = .ok world ∧ empty 4 2 = .ok bare ∧
      bare.createAll [.tile .rock ⟨1, 1⟩, .tile .is ⟨2, 1⟩, .tile .push ⟨3, 1⟩,
        .object .wall ⟨0, 1⟩, .object .rock ⟨2, 1⟩] = .ok (ids, other) ∧
      world.LaysOut (1, 1) other ∧ findings.spells [.rock, .is, .push] = true ∧
        world.search .standard = .ok findings ∧ other.search .standard = .ok moved ∧
          findings.LiesOff (1, 1) moved := by
  -- Evaluated in one piece, so that both worlds are built only once.
  have known : (do
      let world ← row [.rock, .is, .push]
      let bare ← empty 4 2
      let made ← bare.createAll [.tile .rock ⟨1, 1⟩, .tile .is ⟨2, 1⟩, .tile .push ⟨3, 1⟩,
        .object .wall ⟨0, 1⟩, .object .rock ⟨2, 1⟩]
      let findings ← world.search .standard
      return (world.board.tiled, world.board.tiled.map world.board.tiles, made.2.board.tiled,
        made.2.board.tiled.map made.2.board.tiles, findings.spells [.rock, .is, .push]) :
        Except Error _) =
      .ok ([⟨0, 0⟩, ⟨1, 0⟩, ⟨2, 0⟩], [[⟨⟨0⟩, .rock⟩], [⟨⟨1⟩, .is⟩], [⟨⟨2⟩, .push⟩]],
        [⟨1, 1⟩, ⟨2, 1⟩, ⟨3, 1⟩], [[⟨⟨0⟩, .rock⟩], [⟨⟨1⟩, .is⟩], [⟨⟨2⟩, .push⟩]], true) := by
    cbv
  obtain ⟨world, built, known⟩ := bind_eq_ok_iff.mp known
  obtain ⟨bare, empty, known⟩ := bind_eq_ok_iff.mp known
  obtain ⟨⟨ids, other⟩, created, known⟩ := bind_eq_ok_iff.mp known
  obtain ⟨findings, searched, known⟩ := bind_eq_ok_iff.mp known
  simp only [Pure.pure, Except.pure, Except.ok.injEq, Prod.mk.injEq] at known
  obtain ⟨cells, tiles, cells', tiles', spelled⟩ := known
  rw [cells, ← tiles', cells'] at tiles
  simp only [List.map_cons, List.map_nil, List.cons.injEq, and_true] at tiles
  obtain ⟨rock, verb, push⟩ := tiles
  have reachable := Reachable.row built
  have reachable' := (Reachable.empty empty).createAll created
  -- The two lists of tiled cells are matched cell by cell, in both directions.
  have layout : world.LaysOut (1, 1) other := by
    constructor
    · intro cell lies
      have listed := reachable.consistent.isFramed.mem_tiled_iff.mpr lies
      rw [cells] at listed
      simp only [List.mem_cons, List.not_mem_nil, or_false] at listed
      rcases listed with rfl | rfl | rfl
      · exact ⟨⟨1, 1⟩, ⟨rfl, rfl⟩, rock.symm⟩
      · exact ⟨⟨2, 1⟩, ⟨rfl, rfl⟩, verb.symm⟩
      · exact ⟨⟨3, 1⟩, ⟨rfl, rfl⟩, push.symm⟩
    · intro moved lies
      have listed := reachable'.consistent.isFramed.mem_tiled_iff.mpr lies
      rw [cells'] at listed
      simp only [List.mem_cons, List.not_mem_nil, or_false] at listed
      rcases listed with rfl | rfl | rfl
      · exact ⟨⟨0, 0⟩, ⟨rfl, rfl⟩, rock ▸ lies⟩
      · exact ⟨⟨1, 0⟩, ⟨rfl, rfl⟩, verb ▸ lies⟩
      · exact ⟨⟨2, 0⟩, ⟨rfl, rfl⟩, push ▸ lies⟩
  obtain ⟨found, moved, here, there, off⟩ :=
    reachable.search_layout reachable' layout .standard
  cases here.symm.trans searched
  exact ⟨world, bare, ids, other, findings, moved, built, empty, created, layout, spelled, searched,
    there, off⟩

end World

end WordTiles
