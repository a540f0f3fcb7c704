import Mathlib.Data.List.Sort
import WordTiles.Proofs.Sentence.Borders
import WordTiles.Proofs.Sentence.Discovery

/-! Boards with one layout at two places, on grids of any extents: whatever is read on one of them
is read on the other, as far away as the words are. -/

namespace WordTiles

namespace Cell

/-- One cell lies a number of columns and a number of rows away from another. -/
def LiesOff (offset : Int × Int) (cell moved : Cell) : Prop :=
  -- The numbers are whole, so that nothing wraps around.
  moved.q.toInt = cell.q.toInt + offset.1 ∧ moved.r.toInt = cell.r.toInt + offset.2

/-- The cell that lies so far away, on coordinates that wrap around. -/
def shift (offset : Int × Int) (cell : Cell) : Cell :=
  -- Coordinates wrap, which makes this a map of all cells.
  ⟨cell.q + .ofInt offset.1, cell.r + .ofInt offset.2⟩

variable {offset : Int × Int} {a b cell moved : Cell}

/-- Where a shift stays in range, nothing wraps around. -/
theorem LiesOff.shift_eq (off : cell.LiesOff offset moved) : cell.shift offset = moved := by
  -- A coordinate with the true sum as its value is the wrapped sum.
  have exactly {start goal : Int32} {steps : Int} (same : goal.toInt = start.toInt + steps) :
      start + .ofInt steps = goal := by
    rw [← Int32.toInt_inj, Int32.toInt_add, Int32.toInt_ofInt, Int.add_bmod_bmod, ← same]
    exact goal.toInt_bmod
  unfold shift
  rw [exactly off.1, exactly off.2]

/-- Different cells stay different. -/
theorem shift_injective (offset : Int × Int) : Function.Injective (shift offset) := by
  -- Adding a number is undone by taking it away, even around the end of the range.
  intro a b same
  obtain ⟨column, row⟩ := Cell.mk.inj same
  exact (Cell.mk.injEq a.q a.r b.q b.r).mpr
    ⟨(Int32.add_left_inj _).mp column, (Int32.add_left_inj _).mp row⟩

/-- A step leads just as far from a cell that is shifted. -/
theorem beyond_shift (offset : Int × Int) (cell : Cell) (direction : Direction) :
    (cell.shift offset).beyond direction = (cell.beyond direction).shift offset := by
  -- The same two numbers are added to each coordinate, in the opposite order.
  have swap (a b c : Int32) : a + b + c = a + c + b := by
    rw [Int32.add_assoc, Int32.add_comm b, ← Int32.add_assoc]
  exact Cell.mk.injEq .. ▸ ⟨swap .., swap ..⟩

/-- Cells that are shifted in range are read in the same order. -/
theorem LiesOff.readBefore_iff {a' b' : Cell} (one : a.LiesOff offset a')
    (other : b.LiesOff offset b') : a'.ReadBefore b' ↔ a.ReadBefore b := by
  -- Both cells have moved by the same number of rows and columns.
  unfold ReadBefore
  simp only [Int32.lt_iff_toInt_lt, ← Int32.toInt_inj, one.1, one.2, other.1, other.2]
  omega

/-- The direction from one cell to another is the same at another place. -/
theorem headingTo_shift {grid grid' : Grid} (inside : grid.contains a = true)
    (inside' : grid'.contains (a.shift offset) = true) (b : Cell) :
    (a.shift offset).headingTo (b.shift offset) = a.headingTo b := by
  -- The directions are tried alike, and each leads to the target at both places or at neither.
  rw [headingTo_eq inside, headingTo_eq inside']
  refine congrArg (fun test => Except.ok (Direction.all.find? test)) (funext fun direction => ?_)
  rw [beyond_shift, Bool.eq_iff_iff, beq_iff_eq, beq_iff_eq, (shift_injective offset).eq_iff]

end Cell

/-- The word at another place. -/
def PlacedWord.shift (offset : Int × Int) (word : PlacedWord) : PlacedWord :=
  -- Word, entity and part stay.
  { word with position := word.position.shift offset }

/-- The phrase at another place. -/
def Phrase.shift (offset : Int × Int) (phrase : Phrase) : Phrase :=
  -- Every word moves by the same distance.
  ⟨phrase.words.map (PlacedWord.shift offset)⟩

/-- The second board shows the layout of the first at another place, and has no other words. -/
structure Board.ShiftsTo (offset : Int × Int) (board other : Board) : Prop where
  framed : board.IsFramed
  framed' : other.IsFramed
  tiles : ∀ cell, other.tiles (cell.shift offset) = board.tiles cell
  /-- No word has left the range of coordinates. -/
  off : ∀ cell, board.tiles cell ≠ [] → cell.LiesOff offset (cell.shift offset)
  /-- Each word comes from the first board. -/
  origin : ∀ moved, other.tiles moved ≠ [] → ∃ cell : Cell, cell.shift offset = moved

namespace Board

variable {board other : Board} {offset : Int × Int}

/-- A word lies on the grid of each board. -/
theorem ShiftsTo.inside (shifts : board.ShiftsTo offset other) {cell : Cell}
    (lies : board.tiles cell ≠ []) :
    board.contains cell = true ∧ other.contains (cell.shift offset) = true :=
  -- Both boards are framed, and the word shows on each.
  ⟨shifts.framed cell lies, shifts.framed' _ (shifts.tiles cell ▸ lies)⟩

/-- The cells with words, row by row. -/
def tiled (board : Board) : List Cell :=
  -- A cell without a word is nowhere for a sentence to begin.
  board.cells.filter fun cell => !(board.tiles cell).isEmpty

/-- On a framed board every cell with words is listed. -/
theorem IsFramed.mem_tiled_iff (framed : board.IsFramed) {cell : Cell} :
    cell ∈ board.tiled ↔ board.tiles cell ≠ [] := by
  -- Where a word lies is on the grid.
  rw [tiled, List.mem_filter, Grid.mem_cells_iff, Bool.not_eq_true', List.isEmpty_eq_false_iff]
  exact and_iff_right_of_imp (framed cell)

/-- The cells with words are shifted in their order. -/
theorem ShiftsTo.tiled_eq (shifts : board.ShiftsTo offset other) :
    other.tiled = board.tiled.map (Cell.shift offset) := by
  -- Both lists are in reading order, and they have the same members.
  have ordered (board : Board) : board.tiled.Pairwise Cell.ReadBefore :=
    (Grid.pairwise_cells board.toGrid).filter _
  refine (ordered other).eq_of_mem_iff ?_ fun moved => ?_
  · refine List.pairwise_map.mpr ((ordered board).imp_of_mem fun one other before => ?_)
    have lies := shifts.framed.mem_tiled_iff.mp one
    have lies' := shifts.framed.mem_tiled_iff.mp other
    exact ((shifts.off _ lies).readBefore_iff (shifts.off _ lies')).mpr before
  · rw [shifts.framed'.mem_tiled_iff, List.mem_map]
    constructor
    · intro lies
      obtain ⟨cell, rfl⟩ := shifts.origin moved lies
      exact ⟨cell, shifts.framed.mem_tiled_iff.mpr (shifts.tiles cell ▸ lies), rfl⟩
    · intro listed
      obtain ⟨cell, listed, rfl⟩ := listed
      rw [shifts.tiles]
      exact shifts.framed.mem_tiled_iff.mp listed

end Board

namespace Draft

variable {board other : Board} {config : Config} {offset : Int × Int}

/-- The draft at another place. -/
def shift (offset : Int × Int) (draft : Draft) : Draft :=
  -- The heading stays, and so does the phase.
  { draft with
    last := draft.last.shift offset
    earlier := draft.earlier.map (PlacedWord.shift offset) }

/-- The words of a draft that is shifted are shifted. -/
@[simp] theorem phrase_shift (draft : Draft) :
    (draft.shift offset).phrase = draft.phrase.shift offset := by
  -- Reversing the trail and moving its words can be done in either order.
  simp [phrase, shift, trail, Phrase.shift]

/-- The subjects are the same at another place. -/
@[simp] theorem subjects_shift (phrase : Phrase) :
    (phrase.shift offset).subjects = phrase.subjects := by
  -- Subjects are words, whose places do not matter.
  simp only [Phrase.subjects, Phrase.shift, List.filter_map, List.filterMap_map]
  rfl

/-- The places that a draft has used are shifted with it. -/
@[simp] theorem uses_shift (draft : Draft) (cell : Cell) (part : SentencePart) :
    (draft.shift offset).uses (cell.shift offset) part = draft.uses cell part := by
  -- No other cell is shifted to this one.
  change (draft.trail.map (PlacedWord.shift offset)).any _ = _
  rw [List.any_map]
  refine congrArg draft.trail.any (funext fun word => congrArg (· && word.part == part) ?_)
  rw [Bool.eq_iff_iff, beq_iff_eq, beq_iff_eq]
  exact (Cell.shift_injective offset).eq_iff

/-- A word is read at another place as it is here. -/
theorem push_shift (draft : Draft) (cell : Cell) (tile : Tile) (part : SentencePart)
    (phase : Phase) : (draft.shift offset).push (cell.shift offset) tile part phase =
      (draft.push cell tile part phase).shift offset :=
  -- The new word moves along with the trail.
  rfl

/-- What follows a subject is the same at another place. -/
theorem afterSubject_shift (draft : Draft) (cell : Cell) (tile : Tile) :
    (draft.shift offset).afterSubject config (cell.shift offset) tile =
      (draft.afterSubject config cell tile).map (shift offset) := by
  -- The tests ask for places that were used, and these move along.
  unfold afterSubject
  cases tile.word.relation? with
  | none =>
    simp only [uses_shift, push_shift]
    split <;> rfl
  | some relation =>
    simp only [uses_shift, push_shift, phrase_shift, subjects_shift]
    split <;> rfl

/-- A word of one part follows at another place as it does here. -/
theorem continuations_shift (shifts : board.ShiftsTo offset other) (draft : Draft) (cell : Cell)
    (part : SentencePart) (phase : Phase) (test : Word → Bool) :
    (draft.shift offset).continuations other (cell.shift offset) part phase test =
      (draft.continuations board cell part phase test).map (shift offset) := by
  -- The tiles are the same, and so is whether the place is free.
  unfold continuations
  rw [uses_shift, shifts.tiles]
  split
  · rfl
  · rw [List.map_map]
    rfl

/-- A conjunction and a predicate follow at another place as they do here. -/
theorem joins_shift (shifts : board.ShiftsTo offset other) (draft : Draft) (relation : Relation)
    (joint : Cell) (tile : Tile) (direction : Direction) (cell : Cell) :
    (draft.shift offset).joins other relation (joint.shift offset) tile direction
        (cell.shift offset) =
      (draft.joins board relation joint tile direction cell).map (shift offset) := by
  -- As for a single word, since both words move along.
  unfold joins
  rw [uses_shift, shifts.tiles]
  split
  · rfl
  · rw [List.map_map]
    rfl

/-- A draft has the same continuations at another place. -/
theorem openForks_shift (shifts : board.ShiftsTo offset other) (draft : Draft) :
    (draft.shift offset).openForks other config =
      (draft.openForks board config).map (shift offset) := by
  -- Whatever cell a phase looks at, it looks at the one shifted as far.
  have ahead : (draft.shift offset).last.position.beyond (draft.shift offset).heading =
      (draft.last.position.beyond draft.heading).shift offset := Cell.beyond_shift ..
  have phase : (draft.shift offset).phase = draft.phase := rfl
  unfold openForks
  dsimp only
  rw [ahead, phase]
  cases draft.phase with
  | subject =>
    dsimp only
    -- The tiles ahead are the same ones, and so is what each of them leads to.
    rw [shifts.tiles, List.map_filterMap]
    exact congrArg (List.filterMap · _) (funext fun tile => afterSubject_shift draft _ tile)
  | conjunction => exact continuations_shift shifts ..
  | relation relation => exact continuations_shift shifts ..
  | predicate relation =>
    dsimp only
    -- Turns belong to the heading, so that both drafts try the same.
    rw [uses_shift, shifts.tiles]
    split
    · rfl
    · rw [List.map_flatMap]
      refine congrArg (List.flatMap · _) (funext fun tile => ?_)
      rw [List.map_flatMap]
      refine congrArg (List.flatMap · _) (funext fun direction => ?_)
      rw [Cell.beyond_shift]
      exact joins_shift shifts ..

/-- A draft whose last word lies on the board forks at another place as it does here. -/
theorem forks_shift (shifts : board.ShiftsTo offset other) {draft : Draft}
    (lies : board.tiles draft.last.position ≠ []) :
    (draft.shift offset).forks other config =
      .ok ((draft.openForks board config).map (shift offset)) := by
  -- The draft lies on both grids, where forks do not depend on the border.
  have inside : other.contains (draft.shift offset).last.position = true := (shifts.inside lies).2
  rw [forks_eq shifts.framed' config inside, openForks_shift shifts]

/-- What is read from a draft is read at another place as well, in the same order. -/
theorem readings_shift (shifts : board.ShiftsTo offset other) {draft : Draft}
    (lies : board.tiles draft.last.position ≠ []) :
    (draft.shift offset).readings other config =
      (draft.readings board config).map (Phrase.shift offset) := by
  -- Each fork ends with a word of the board, so by induction its readings are shifted.
  induction draft using readings.induct board config with
  | case1 draft error failed =>
    rw [forks_eq shifts.framed config (shifts.inside lies).1] at failed
    cases failed
  | case2 draft forks built done =>
    obtain rfl := Except.ok.inj (built.symm.trans
      (forks_eq shifts.framed config (shifts.inside lies).1))
    -- Both drafts are stuck, or neither is.
    rw [readings_eq built, readings_eq (forks_shift shifts lies), List.isEmpty_map, if_pos done]
    exact (if_pos done).trans (congrArg (fun phrase => [phrase]) (phrase_shift draft))
  | case3 draft forks built more ih =>
    obtain rfl := Except.ok.inj (built.symm.trans
      (forks_eq shifts.framed config (shifts.inside lies).1))
    rw [readings_eq built, readings_eq (forks_shift shifts lies), List.isEmpty_map, if_neg more]
    refine (if_neg more).trans ?_
    rw [List.flatMap_map, List.map_flatMap]
    refine List.flatMap_congr fun fork listed => ?_
    -- The forks of the shifted draft are the shifted forks.
    obtain ⟨forks, same, grows⟩ := forks_spec config (shifts.inside lies).1
    cases same.symm.trans built
    exact ih ⟨fork, listed⟩ (List.ne_nil_of_mem ((grows fork).mp listed).shows.2)

end Draft

namespace Agenda

open Draft

variable {board other : Board} {config : Config} {offset : Int × Int}

/-- A search begins on the cells with words. -/
theorem starts_eq (board : Board) : starts board = board.tiled.flatMap fun cell =>
    ((board.tiles cell).filter (·.word.isNoun)).flatMap fun tile =>
      Direction.all.map (Draft.start cell tile) := by
  -- A cell without words adds no draft.
  unfold starts Board.tiled
  induction board.cells with
  | nil => rfl
  | cons cell rest ih =>
    rw [List.filter_cons, List.flatMap_cons, ih]
    cases tiles : board.tiles cell <;> simp [tiles]

/-- A search begins with the same drafts at another place, in the same order. -/
theorem starts_shift (shifts : board.ShiftsTo offset other) :
    starts other = (starts board).map (Draft.shift offset) := by
  -- Cells with words are listed in the same order, and each has the same tiles.
  rw [starts_eq, starts_eq, shifts.tiled_eq, List.flatMap_map, List.map_flatMap]
  refine congrArg (List.flatMap · _) (funext fun cell => ?_)
  rw [shifts.tiles, List.map_flatMap]
  refine congrArg (List.flatMap · _) (funext fun tile => ?_)
  rw [List.map_map]
  rfl

/-- The agenda finds the same sentences at another place, in the same order. -/
theorem sentences_shift (shifts : board.ShiftsTo offset other) :
    (starts other).flatMap (readings other config) =
      ((starts board).flatMap (readings board config)).map (Phrase.shift offset) := by
  -- The drafts that begin the two searches are read one by one.
  rw [starts_shift shifts, List.flatMap_map, List.map_flatMap]
  refine List.flatMap_congr fun draft begins => ?_
  exact readings_shift shifts (List.ne_nil_of_mem (shows_of_mem_starts begins).2)

end Agenda

end WordTiles
