import WordTiles.Proofs.Lists
import WordTiles.Proofs.Sentence.Growth

/-! The border of a board acts like empty cells: a draft grows as it would on a plane without an
edge. -/

namespace WordTiles

/-- The words of a board lie on its grid. -/
def Board.IsFramed (board : Board) : Prop :=
  -- A board is a function on all cells, and only a world keeps it to the grid.
  ∀ cell, board.tiles cell ≠ [] → board.contains cell = true

/-- A framed board has no tile outside its grid. -/
theorem Board.IsFramed.tiles_eq_nil {board : Board} (framed : board.IsFramed) {cell : Cell}
    (outside : ¬board.contains cell = true) : board.tiles cell = [] := by
  -- A tile there would have to lie inside.
  by_contra some
  exact outside (framed cell some)

namespace Draft

variable {board : Board} {config : Config} {draft : Draft}

/-- The continuations of a complete draft by one conjunction at a cell and a predicate at
another. -/
def joins (board : Board) (draft : Draft) (relation : Relation) (joint : Cell) (tile : Tile)
    (direction : Direction) (cell : Cell) : List Draft :=
  -- The conjunction is on the trail already when the predicate is read.
  if draft.uses cell .predicate then []
  else ((board.tiles cell).filter fun tile => relation.allowsPredicate tile.word).map fun last =>
    { (draft.push joint tile .conjunction draft.phase).push cell last .predicate draft.phase with
      heading := direction }

/-- The continuations of a draft by the words of a board, whatever its grid is. -/
def openForks (board : Board) (config : Config) (draft : Draft) : List Draft :=
  -- Cells beyond the grid count as cells without words.
  let next := draft.last.position.beyond draft.heading
  match draft.phase with
  | .subject => (board.tiles next).filterMap (draft.afterSubject config next)
  | .conjunction => draft.continuations board next .subject .subject Word.isNoun
  | .relation relation =>
    draft.continuations board next .predicate (.predicate relation) relation.allowsPredicate
  -- The conjunction may be left in every direction, on or off the grid.
  | .predicate relation =>
    if draft.uses next .conjunction then []
    else ((board.tiles next).filter (·.word.isConjunction)).flatMap fun tile =>
      (turns config draft.heading).flatMap fun direction =>
        draft.joins board relation next tile direction (next.beyond direction)

/-- On a framed board a complete draft on the grid continues as it would without an edge. -/
theorem afterPredicate_eq (framed : board.IsFramed) {relation : Relation} {joint : Cell}
    (inside : board.contains joint = true) :
    draft.afterPredicate board config relation joint =
      .ok (if draft.uses joint .conjunction then []
        else ((board.tiles joint).filter (·.word.isConjunction)).flatMap fun tile =>
          (turns config draft.heading).flatMap fun direction =>
            draft.joins board relation joint tile direction (joint.beyond direction)) := by
  -- The landings off the grid are left out, and no word lies there.
  unfold afterPredicate
  split
  · rfl
  · rw [landings_eq inside]
    simp only [Bind.bind, Except.bind, Pure.pure, Except.pure]
    refine congrArg Except.ok (congrArg (List.flatMap · _) (funext fun tile => ?_))
    apply flatMap_filterMap
    · intro direction landing kept
      split at kept <;> cases kept
      rfl
    · intro direction dropped
      split at dropped <;> cases dropped
      rename_i outside
      unfold joins
      rw [framed.tiles_eq_nil outside]
      split <;> rfl

/-- On a framed board a draft on the grid has the forks that it would have without an edge. -/
theorem forks_eq (framed : board.IsFramed) (config : Config)
    (inside : board.contains draft.last.position = true) :
    draft.forks board config = .ok (draft.openForks board config) := by
  -- The draft steps onto the grid, where its own phase decides, or off it, where nothing lies.
  obtain ⟨next, led, stepped⟩ := Grid.step_of_contains inside draft.heading
  unfold forks openForks
  rw [stepped, Cell.beyond_eq led]
  simp only [Bind.bind, Except.bind, Pure.pure, Except.pure]
  by_cases lands : board.contains next = true
  · rw [if_pos lands]
    cases draft.phase with
    | subject => rfl
    | conjunction => rfl
    | relation relation => rfl
    | predicate relation => exact afterPredicate_eq framed lands
  · have nothing := framed.tiles_eq_nil lands
    rw [if_neg lands]
    cases draft.phase <;> simp [continuations, nothing]

end Draft

end WordTiles
