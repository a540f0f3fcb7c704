/-! Cells of an axial hex grid, and the six directions that lead from a cell to its neighbours. -/

namespace WordTiles

/-- A cell by its two axial coordinates. -/
structure Cell where
  /-- The column. -/
  q : Int32
  /-- The row. -/
  r : Int32
  deriving DecidableEq

namespace Cell

/-- Cells are ordered by column, and within a column by row. -/
instance : Ord Cell := ⟨fun a b => (compare a.q b.q).then (compare a.r b.r)⟩

/-- The written form of a cell names its column, then its row. -/
def text (cell : Cell) : String :=
  s!"({cell.q.toInt}, {cell.r.toInt})"

end Cell

/-- One of the six directions, in the order in which a search tries them. -/
inductive Direction where
  | east
  | northEast
  | northWest
  | west
  | southWest
  | southEast
  deriving DecidableEq

namespace Direction

/-- Every direction, in search order. -/
def all : List Direction :=
  [east, northEast, northWest, west, southWest, southEast]

/-- The change of column and row that one step makes. -/
def offset : Direction → Int32 × Int32
  -- The third cube coordinate is minus the sum of these two, so that every step changes two of
  -- three.
  | east => (1, 0)
  | northEast => (1, -1)
  | northWest => (0, -1)
  | west => (-1, 0)
  | southWest => (-1, 1)
  | southEast => (0, 1)

/-- The direction that leads straight back. -/
def opposite : Direction → Direction
  -- An opposite step has the two changes negated.
  | east => west
  | northEast => southWest
  | northWest => southEast
  | west => east
  | southWest => northEast
  | southEast => northWest

/-- A sentence that reads in both directions is kept in its forward one; of each opposite pair
exactly one direction is forward. -/
def readsForward : Direction → Bool
  -- East is forward by convention, and of the steps that change the row the two southern ones are.
  | east | southWest | southEast => true
  | northEast | northWest | west => false

/-- The name of a direction. -/
def name : Direction → String
  | east => "East"
  | northEast => "NorthEast"
  | northWest => "NorthWest"
  | west => "West"
  | southWest => "SouthWest"
  | southEast => "SouthEast"

end Direction

end WordTiles
