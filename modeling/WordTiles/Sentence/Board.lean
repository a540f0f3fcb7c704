import WordTiles.Hex.Grid
import WordTiles.Phrase.Basic

/-! Boards: a grid and the words on its cells, which is all that a sentence is read from. -/

namespace WordTiles

/-- A word tile as the reader of a sentence sees it. -/
structure Tile where
  entity : EntityId
  word : Word
  deriving DecidableEq

/-- A grid with the tiles stacked on each of its cells, bottom layer first. -/
structure Board extends Grid where
  tiles : Cell → List Tile

namespace Board

/-- Every pair of a cell and a part that a word there can play in a sentence. -/
def places (board : Board) : List (Cell × SentencePart) :=
  -- There are four parts, so that a board has four places to a cell.
  board.cells.flatMap fun cell => SentencePart.all.map (cell, ·)

/-- Every part of every cell of the grid is listed. -/
theorem mem_places {board : Board} {cell : Cell} (inside : board.contains cell = true)
    (part : SentencePart) : (cell, part) ∈ board.places := by
  -- The cell is among the cells of the grid, and each part is listed for it.
  refine List.mem_flatMap.mpr ⟨cell, Grid.mem_cells_of_contains inside, ?_⟩
  refine List.mem_map.mpr ⟨part, ?_, rfl⟩
  cases part <;> decide

end Board

end WordTiles
