import WordTiles.Hex.Step

/-! Grids: rhombuses of cells whose coordinates run from zero up to a width and a height. -/

namespace WordTiles

/-- A grid by its two extents. -/
structure Grid where
  width : Int32
  height : Int32
  deriving DecidableEq

namespace Grid

/-- The cell lies on the grid. -/
def contains (grid : Grid) (cell : Cell) : Bool :=
  -- The lower ends belong to the grid, and the upper ones do not.
  0 ≤ cell.q && cell.q < grid.width && 0 ≤ cell.r && cell.r < grid.height

/-- Every cell of the grid, row by row. -/
def cells (grid : Grid) : List Cell :=
  -- Columns run within a row, so that a scan reads line by line.
  (List.range grid.height.toNatClampNeg).flatMap fun r =>
    (List.range grid.width.toNatClampNeg).map fun q => ⟨.ofNat q, .ofNat r⟩

/-- The neighbour of a cell in a direction, if it lies on the grid. -/
def step (grid : Grid) (cell : Cell) (direction : Direction) : Except Error (Option Cell) := do
  -- A neighbour that would leave the range of coordinates is a fault, on or off the grid.
  let next ← cell.neighbor direction
  return if grid.contains next then some next else none

/-- The cells of a grid are all listed. -/
theorem mem_cells_of_contains {grid : Grid} {cell : Cell} (inside : grid.contains cell = true) :
    cell ∈ grid.cells := by
  -- Each coordinate is the number that it clamps to, and that number is below the extent.
  simp only [contains, Bool.and_eq_true, decide_eq_true_eq] at inside
  obtain ⟨⟨⟨left, right⟩, top⟩, bottom⟩ := inside
  have below {a b : Int32} (start : 0 ≤ a) (less : a < b) : a.toNatClampNeg < b.toNatClampNeg := by
    have clamped := Int32.toInt_eq_toNatClampNeg start
    have ends := Int32.lt_iff_toInt_lt.mp less
    rw [Int32.toNatClampNeg.eq_1 b]
    omega
  refine List.mem_flatMap.mpr ⟨cell.r.toNatClampNeg, List.mem_range.mpr (below top bottom), ?_⟩
  refine List.mem_map.mpr ⟨cell.q.toNatClampNeg, List.mem_range.mpr (below left right), ?_⟩
  rw [Int32.ofNat_toNatClampNeg _ left, Int32.ofNat_toNatClampNeg _ top]

/-- A step that succeeds ends on the grid. -/
theorem contains_of_step {grid : Grid} {cell next : Cell} {direction : Direction}
    (stepped : grid.step cell direction = .ok (some next)) : grid.contains next = true := by
  -- The result is kept only when it passed this very test.
  unfold step at stepped
  cases reached : cell.neighbor direction with
  | error error => simp [reached, Bind.bind, Except.bind] at stepped
  | ok target =>
    simp only [reached, Bind.bind, Except.bind, Pure.pure, Except.pure, Except.ok.injEq] at stepped
    split at stepped <;> simp_all

end Grid

end WordTiles
