import Mathlib.Data.List.Nodup
import WordTiles.Hex.Grid

/-! Steps between cells in exact coordinates, why no step from a cell of a grid leaves the range of
coordinates, and the list of the cells of a grid. -/

namespace WordTiles

/-- A whole number is a coordinate exactly when some coordinate has its value. -/
theorem Coordinate.ofInt?_eq_some_iff {value : Int} {coordinate : Int32} :
    Coordinate.ofInt? value = some coordinate ↔ coordinate.toInt = value := by
  -- Every coordinate is in range, and within the range nothing is lost.
  have least := Int32.minValue_le_toInt coordinate
  have most := Int32.toInt_le coordinate
  unfold Coordinate.ofInt?
  split
  · rw [Option.some.injEq, ← Int32.toInt_inj, Int32.toInt_ofIntLE]
    exact eq_comm
  · rename_i outside
    refine iff_of_false nofun fun same => outside ?_
    rw [same] at least most
    exact ⟨least, most⟩

/-- Every whole number in the range of coordinates is the value of one. -/
theorem Coordinate.exists_toInt_eq (value : Int) (least : -2147483648 ≤ value)
    (most : value ≤ 2147483647) : ∃ coordinate : Int32, coordinate.toInt = value :=
  -- The bounds are those of a signed word of 32 bits.
  ⟨.ofIntLE value (by rw [Int32.toInt_minValue]; omega) (by rw [Int32.toInt_maxValue]; omega),
    Int32.toInt_ofIntLE⟩

/-- A sum of coordinates succeeds exactly with the true sum. -/
theorem Coordinate.add_eq_ok_iff {a b sum : Int32} :
    Coordinate.add a b = .ok sum ↔ sum.toInt = a.toInt + b.toInt := by
  unfold add
  constructor
  · intro added
    split at added <;> cases added
    assumption
  · -- A coordinate whose value is the true sum is the wrapped sum.
    intro same
    obtain rfl : sum = a + b := by
      rw [← Int32.ofInt_toInt sum, same, Int32.ofInt_add, Int32.ofInt_toInt, Int32.ofInt_toInt]
    rw [if_pos same]

/-- A difference of coordinates succeeds exactly with the true difference. -/
theorem Coordinate.sub_eq_ok_iff {a b difference : Int32} :
    Coordinate.sub a b = .ok difference ↔ difference.toInt = a.toInt - b.toInt := by
  unfold sub
  constructor
  · intro taken
    split at taken <;> cases taken
    assumption
  · -- As for a sum.
    intro same
    obtain rfl : difference = a - b := by
      rw [← Int32.ofInt_toInt difference, same, Int32.ofInt_sub, Int32.ofInt_toInt,
        Int32.ofInt_toInt]
    rw [if_pos same]

namespace Direction

/-- The change of column that one step makes, as a whole number. -/
def columns (direction : Direction) : Int :=
  -- The column is the first axial coordinate.
  direction.offset.1.toInt

/-- The change of row that one step makes, as a whole number. -/
def rows (direction : Direction) : Int :=
  -- The row is the second one.
  direction.offset.2.toInt

/-- Every step changes the coordinates by one of six pairs, each another one. -/
theorem columns_rows (direction : Direction) :
    (direction.columns, direction.rows) =
      match direction with
      | east => (1, 0)
      | northEast => (1, -1)
      | northWest => (0, -1)
      | west => (-1, 0)
      | southWest => (-1, 1)
      | southEast => (0, 1) := by
  -- The table of offsets is read off, in whole numbers.
  cases direction <;> rfl

/-- A step back undoes the change of column. -/
@[simp] theorem columns_opposite (direction : Direction) :
    direction.opposite.columns = -direction.columns := by
  -- Each of the six pairs is compared with its opposite.
  cases direction <;> rfl

/-- A step back undoes the change of row. -/
@[simp] theorem rows_opposite (direction : Direction) :
    direction.opposite.rows = -direction.rows := by
  -- As for the columns.
  cases direction <;> rfl

/-- Of two opposite directions exactly one is forward. -/
@[simp] theorem readsForward_opposite (direction : Direction) :
    direction.opposite.readsForward = !direction.readsForward := by
  -- Three of the six directions are forward, one of each pair.
  cases direction <;> rfl

/-- A step changes each coordinate by at most one. -/
theorem offset_bounds (direction : Direction) :
    -1 ≤ direction.columns ∧ direction.columns ≤ 1 ∧ -1 ≤ direction.rows ∧ direction.rows ≤ 1 := by
  -- The six pairs are small.
  cases direction <;> decide

/-- Directions are told apart by the changes that they make. -/
theorem eq_of_columns_rows {a b : Direction} (columns : a.columns = b.columns)
    (rows : a.rows = b.rows) : a = b := by
  -- The six pairs differ, so that a pair gives its direction away.
  have pairs : (a.columns, a.rows) = (b.columns, b.rows) := by rw [columns, rows]
  rw [columns_rows, columns_rows] at pairs
  cases a <;> cases b <;> simp at pairs ⊢

/-- No direction is missing from the list of all. -/
theorem mem_all (direction : Direction) : direction ∈ all := by
  -- There are only six.
  cases direction <;> decide

end Direction

namespace Cell

/-- A step succeeds exactly with the cell whose coordinates are the true sums. -/
theorem neighbor_eq_ok_iff {cell next : Cell} {direction : Direction} :
    cell.neighbor direction = .ok next ↔
      next.q.toInt = cell.q.toInt + direction.columns ∧
        next.r.toInt = cell.r.toInt + direction.rows := by
  -- The two coordinates are summed one after the other.
  unfold neighbor
  constructor
  · intro stepped
    obtain ⟨q, column, stepped⟩ := bind_eq_ok_iff.mp stepped
    obtain ⟨r, row, stepped⟩ := bind_eq_ok_iff.mp stepped
    cases stepped
    exact ⟨Coordinate.add_eq_ok_iff.mp column, Coordinate.add_eq_ok_iff.mp row⟩
  · rintro ⟨column, row⟩
    have column := Coordinate.add_eq_ok_iff.mpr column
    have row := Coordinate.add_eq_ok_iff.mpr row
    simp [column, row, Bind.bind, Except.bind, Pure.pure, Except.pure]

/-- Whoever can step from one cell to another can step back. -/
theorem neighbor_opposite {a b : Cell} {direction : Direction}
    (stepped : a.neighbor direction = .ok b) : b.neighbor direction.opposite = .ok a := by
  -- The changes of the two steps cancel out.
  rw [neighbor_eq_ok_iff] at stepped ⊢
  simp only [Direction.columns_opposite, Direction.rows_opposite]
  omega

/-- Only one direction leads from one cell to another. -/
theorem direction_unique {a b : Cell} {first second : Direction}
    (one : a.neighbor first = .ok b) (other : a.neighbor second = .ok b) : first = second := by
  -- Both directions change the coordinates alike.
  rw [neighbor_eq_ok_iff] at one other
  exact Direction.eq_of_columns_rows (by omega) (by omega)

/-- The cell to which one step leads, on coordinates that wrap around. -/
def beyond (cell : Cell) (direction : Direction) : Cell :=
  -- No check is made, so that there is a cell beyond every cell.
  ⟨cell.q + direction.offset.1, cell.r + direction.offset.2⟩

/-- Where a step stays in range, nothing wraps around. -/
theorem beyond_eq {cell next : Cell} {direction : Direction}
    (stepped : cell.neighbor direction = .ok next) : cell.beyond direction = next := by
  -- A checked sum is a sum that did not wrap.
  obtain ⟨column, row⟩ := neighbor_eq_ok_iff.mp stepped
  have exactly {a b sum : Int32} (same : sum.toInt = a.toInt + b.toInt) : a + b = sum := by
    rw [← Int32.toInt_inj, Int32.toInt_add, ← same]
    exact sum.toInt_bmod
  unfold beyond
  rw [exactly column, exactly row]

end Cell

namespace Grid

/-- The coordinates of a cell of the grid, as whole numbers. -/
theorem bounds_of_contains {grid : Grid} {cell : Cell} (inside : grid.contains cell = true) :
    0 ≤ cell.q.toInt ∧ cell.q.toInt < grid.width.toInt ∧ 0 ≤ cell.r.toInt ∧
      cell.r.toInt < grid.height.toInt := by
  -- Comparing coordinates is comparing the whole numbers that they stand for.
  simp only [contains, Bool.and_eq_true, decide_eq_true_eq, Int32.le_iff_toInt_le,
    Int32.lt_iff_toInt_lt, Int32.toInt_zero] at inside
  omega

/-- From a cell of the grid every step stays in the range of coordinates. -/
theorem exists_neighbor {grid : Grid} {cell : Cell} (inside : grid.contains cell = true)
    (direction : Direction) : ∃ next, cell.neighbor direction = .ok next := by
  -- The extents of the grid are coordinates themselves, so there is room for one more step.
  obtain ⟨left, right, top, bottom⟩ := bounds_of_contains inside
  obtain ⟨westward, eastward, northward, southward⟩ := direction.offset_bounds
  have wide := grid.width.toInt_le
  have high := grid.height.toInt_le
  rw [Int32.toInt_maxValue] at wide high
  obtain ⟨q, column⟩ := Coordinate.exists_toInt_eq (cell.q.toInt + direction.columns)
    (by omega) (by omega)
  obtain ⟨r, row⟩ := Coordinate.exists_toInt_eq (cell.r.toInt + direction.rows)
    (by omega) (by omega)
  exact ⟨⟨q, r⟩, Cell.neighbor_eq_ok_iff.mpr ⟨column, row⟩⟩

/-- From a cell of the grid every step leads to the cell beyond. -/
theorem neighbor_eq_ok_iff {grid : Grid} {cell next : Cell} {direction : Direction}
    (inside : grid.contains cell = true) :
    cell.neighbor direction = .ok next ↔ cell.beyond direction = next := by
  -- Nothing on a grid is so close to the end of the range that a step wraps.
  obtain ⟨target, led⟩ := exists_neighbor inside direction
  rw [led, Except.ok.injEq, Cell.beyond_eq led]

/-- From a cell of the grid a step never fails: it leads to the neighbour or off the grid. -/
theorem step_of_contains {grid : Grid} {cell : Cell} (inside : grid.contains cell = true)
    (direction : Direction) :
    ∃ next, cell.neighbor direction = .ok next ∧
      grid.step cell direction = .ok (if grid.contains next then some next else none) := by
  -- The neighbour exists, and the grid is only asked whether it lies inside.
  obtain ⟨next, stepped⟩ := exists_neighbor inside direction
  exact ⟨next, stepped, by simp [step, stepped, Bind.bind, Except.bind, Pure.pure, Except.pure]⟩

/-- A number below an extent is a coordinate, and as a coordinate it is below the extent. -/
theorem toInt_ofNat_of_lt {value : Nat} {extent : Int32} (below : value < extent.toNatClampNeg) :
    (Int32.ofNat value).toInt = value ∧ (value : Int) < extent.toInt := by
  -- An extent is a coordinate itself, and so it is below the end of the range.
  have least := extent.toNatClampNeg_lt
  refine ⟨Int32.toInt_ofNat_of_lt (by omega), ?_⟩
  unfold Int32.toNatClampNeg at below
  omega

/-- The list of all cells of a grid holds nothing else. -/
theorem mem_cells_iff {grid : Grid} {cell : Cell} :
    cell ∈ grid.cells ↔ grid.contains cell = true := by
  -- A listed cell has its coordinates among the ranges, and these are below the extents.
  refine ⟨fun listed => ?_, mem_cells_of_contains⟩
  obtain ⟨r, row, listed⟩ := List.mem_flatMap.mp listed
  obtain ⟨q, column, rfl⟩ := List.mem_map.mp listed
  obtain ⟨qValue, qBelow⟩ := toInt_ofNat_of_lt (List.mem_range.mp column)
  obtain ⟨rValue, rBelow⟩ := toInt_ofNat_of_lt (List.mem_range.mp row)
  simp only [contains, Bool.and_eq_true, decide_eq_true_eq, Int32.le_iff_toInt_le,
    Int32.lt_iff_toInt_lt, Int32.toInt_zero, qValue, rValue]
  omega

/-- No cell of a grid is listed twice. -/
theorem nodup_cells (grid : Grid) : grid.cells.Nodup := by
  -- Within a row the columns differ, and different rows have no cell in common.
  refine List.nodup_flatMap.mpr ⟨fun r _ => ?_, ?_⟩
  · refine List.nodup_range.map_on fun a left b right same => ?_
    obtain ⟨one, _⟩ := toInt_ofNat_of_lt (List.mem_range.mp left)
    obtain ⟨other, _⟩ := toInt_ofNat_of_lt (List.mem_range.mp right)
    have columns := congrArg (fun cell : Cell => cell.q.toInt) same
    simp only [one, other] at columns
    omega
  · refine List.nodup_range.imp_of_mem fun {a b} left right differ cell one other => ?_
    obtain ⟨_, _, rfl⟩ := List.mem_map.mp one
    obtain ⟨_, _, same⟩ := List.mem_map.mp other
    obtain ⟨one, _⟩ := toInt_ofNat_of_lt (List.mem_range.mp left)
    obtain ⟨other, _⟩ := toInt_ofNat_of_lt (List.mem_range.mp right)
    have rows := congrArg (fun cell : Cell => cell.r.toInt) same
    simp only [one, other] at rows
    omega

end Grid

/-- From a cell of a grid the directions are tried without failing. -/
theorem Cell.headingTo_eq {grid : Grid} {a : Cell} (inside : grid.contains a = true) (b : Cell) :
    a.headingTo b = .ok (Direction.all.find? fun direction => a.beyond direction == b) := by
  -- Each step from the grid has a target, which is the cell beyond.
  unfold headingTo
  induction Direction.all with
  | nil => rfl
  | cons direction rest ih =>
    obtain ⟨next, led⟩ := Grid.exists_neighbor inside direction
    rw [List.findM?, ih, List.find?_cons, led, beyond_eq led]
    simp only [Bind.bind, Except.bind, Pure.pure, Except.pure]
    cases next == b <;> rfl

/-- From a cell of a grid the direction of a step is found again. -/
theorem Cell.headingTo_of_neighbor {grid : Grid} {a b : Cell} (inside : grid.contains a = true)
    {direction : Direction} (stepped : a.neighbor direction = .ok b) :
    a.headingTo b = .ok (some direction) := by
  rw [headingTo_eq inside]
  -- Some direction is found, and only one leads there.
  have some : (Direction.all.find? fun other => a.beyond other == b).isSome = true :=
    List.find?_isSome.mpr ⟨direction, direction.mem_all, beq_iff_eq.mpr (beyond_eq stepped)⟩
  obtain ⟨found, same⟩ := Option.isSome_iff_exists.mp some
  have leads : a.beyond found = b := by simpa using List.find?_some same
  have again := (Grid.neighbor_eq_ok_iff inside).mpr leads
  rw [same, direction_unique again stepped]

end WordTiles
