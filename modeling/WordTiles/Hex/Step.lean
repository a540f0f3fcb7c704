import WordTiles.Error

/-! Steps and distances between cells, which fail where a coordinate would leave its range. -/

namespace WordTiles

namespace Coordinate

/-- The coordinate of a whole number, if it has one. -/
def ofInt? (value : Int) : Option Int32 :=
  -- Only numbers that a signed word of 32 bits holds are coordinates.
  if inRange : Int32.minValue.toInt ≤ value ∧ value ≤ Int32.maxValue.toInt then
    some (.ofIntLE value inRange.1 inRange.2)
  else none

/-- The sum of two coordinates. -/
def add (a b : Int32) : Except Error Int32 :=
  -- A sum that leaves the range wraps around, so that it is not the true sum.
  if (a + b).toInt = a.toInt + b.toInt then .ok (a + b) else .error .sumOverflow

/-- The difference of two coordinates. -/
def sub (a b : Int32) : Except Error Int32 :=
  -- As for a sum.
  if (a - b).toInt = a.toInt - b.toInt then .ok (a - b) else .error .differenceOverflow

/-- The sum of two step counts, which has a range of its own. -/
def addSteps (a b : Nat) : Except Error Nat :=
  -- Step counts are unsigned words of 32 bits.
  if a + b < UInt32.size then .ok (a + b) else .error .sumOverflow

end Coordinate

namespace Cell

/-- The neighbour in a direction. -/
def neighbor (cell : Cell) (direction : Direction) : Except Error Cell := do
  -- Each coordinate is checked by itself, the column first.
  let q ← Coordinate.add cell.q direction.offset.1
  let r ← Coordinate.add cell.r direction.offset.2
  return ⟨q, r⟩

/-- The number of steps between two cells: half the sum of the three differences of cube
coordinates. -/
def distance (a b : Cell) : Except Error Nat := do
  -- Every intermediate result has to be in range, not only the last.
  let dq ← Coordinate.sub a.q b.q
  let dr ← Coordinate.sub a.r b.r
  let axes ← Coordinate.addSteps dq.toInt.natAbs dr.toInt.natAbs
  -- The third cube coordinate differs by the sum of the other two.
  let diagonal ← Coordinate.add dq dr
  let total ← Coordinate.addSteps axes diagonal.toInt.natAbs
  return total / 2

/-- Two cells are adjacent if they are one step apart. -/
def isNeighborOf (a b : Cell) : Except Error Bool := do
  -- A cell is no neighbour of itself, and of two far cells the distance may be out of range.
  return (← a.distance b) == 1

/-- The direction of the step from one cell to another, if one step leads there. The directions are
tried in order, and one that leaves the range stops the search. -/
def headingTo (a b : Cell) : Except Error (Option Direction) :=
  -- A search without a hit has tried all six, none of which left the range.
  Direction.all.findM? fun direction => do return (← a.neighbor direction) == b

end Cell

end WordTiles
