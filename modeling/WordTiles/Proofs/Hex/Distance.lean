import Mathlib.Algebra.Group.Int.Defs
import Mathlib.Algebra.Group.Nat.Defs
import WordTiles.Proofs.Hex.Grid

/-! Distances: wherever the steps between two cells can be counted, the count is the length of a
shortest route, and it agrees with the directions of single steps. -/

namespace WordTiles

/-- Step counts add up to their sum while it is a count itself. -/
theorem Coordinate.addSteps_eq_ok_iff {a b sum : Nat} :
    addSteps a b = .ok sum ↔ sum = a + b ∧ a + b < 2 ^ 32 := by
  -- The test is for the size of an unsigned word of 32 bits.
  unfold addSteps
  rw [show UInt32.size = 2 ^ 32 from rfl]
  split <;> simp_all [eq_comm]

/-- A difference that is in the range of coordinates can be computed. -/
theorem Coordinate.exists_sub {a b : Int32} (least : -2 ^ 31 ≤ a.toInt - b.toInt)
    (most : a.toInt - b.toInt < 2 ^ 31) :
    ∃ difference, sub a b = .ok difference ∧ difference.toInt = a.toInt - b.toInt := by
  -- Some coordinate has the value of the difference, and that one is computed.
  obtain ⟨difference, exact⟩ := exists_toInt_eq (a.toInt - b.toInt) (by omega) (by omega)
  exact ⟨difference, sub_eq_ok_iff.mpr exact, exact⟩

/-- So can a sum. -/
theorem Coordinate.exists_add {a b : Int32} (least : -2 ^ 31 ≤ a.toInt + b.toInt)
    (most : a.toInt + b.toInt < 2 ^ 31) :
    ∃ sum, add a b = .ok sum ∧ sum.toInt = a.toInt + b.toInt := by
  -- As for a difference.
  obtain ⟨sum, exact⟩ := exists_toInt_eq (a.toInt + b.toInt) (by omega) (by omega)
  exact ⟨sum, add_eq_ok_iff.mpr exact, exact⟩

/-- The first item that passes a test passes it, and if none does all of them have failed it. -/
theorem findM?_eq_ok {α : Type} {test : α → Except Error Bool} {items : List α}
    {found : Option α} (searched : items.findM? test = .ok found) :
    (∀ item, found = some item → test item = .ok true) ∧
      (found = none → ∀ item ∈ items, test item = .ok false) := by
  induction items with
  | nil =>
    cases searched
    simp
  | cons first rest ih =>
    obtain ⟨passed, tested, searched⟩ := bind_eq_ok_iff.mp searched
    cases passed with
    | true =>
      cases searched
      simpa using tested
    | false =>
      -- The search goes on behind an item that fails.
      obtain ⟨passes, fails⟩ := ih searched
      refine ⟨passes, fun none item listed => ?_⟩
      rcases List.mem_cons.mp listed with same | later
      · rw [same, tested]
      · exact fails none item later

/-- The number of steps that a difference of columns and rows takes. One step changes each of the
three cube coordinates by at most one. -/
def stretch (columns rows : Int) : Nat :=
  -- A step that changes column and row in opposite senses leaves their sum, the third coordinate,
  -- alone.
  max columns.natAbs (max rows.natAbs (columns + rows).natAbs)

/-- Half the sum of the three changes is the largest of them, which is the sum of the others. -/
theorem stretch_eq_half (columns rows : Int) :
    stretch columns rows = (columns.natAbs + rows.natAbs + (columns + rows).natAbs) / 2 := by
  -- Of the three changes the largest is the sum of the two others, up to signs.
  unfold stretch
  omega

/-- So many steps are enough for a difference exactly if they are for each of the three changes. -/
theorem stretch_le_iff {columns rows : Int} {steps : Nat} :
    stretch columns rows ≤ steps ↔ -steps ≤ columns ∧ columns ≤ steps ∧ -steps ≤ rows ∧
      rows ≤ steps ∧ -steps ≤ columns + rows ∧ columns + rows ≤ steps := by
  -- A maximum is bounded by what bounds each of the three.
  unfold stretch
  omega

/-- The way back is as long. -/
theorem stretch_neg (columns rows : Int) : stretch (-columns) (-rows) = stretch columns rows := by
  -- The bounds on the three changes are the same on both sides.
  apply Nat.le_antisymm
  · have bounds := stretch_le_iff.mp (Nat.le_refl (stretch columns rows))
    rw [stretch_le_iff]
    omega
  · have bounds := stretch_le_iff.mp (Nat.le_refl (stretch (-columns) (-rows)))
    rw [stretch_le_iff]
    omega

/-- Nothing is left to go only at the target. -/
theorem stretch_eq_zero_iff {columns rows : Int} :
    stretch columns rows = 0 ↔ columns = 0 ∧ rows = 0 := by
  -- The sum of two changes that vanish vanishes too.
  rw [← Nat.le_zero, stretch_le_iff]
  omega

/-- A step leaves at most one step less to go. -/
theorem stretch_le_step (columns rows : Int) (direction : Direction) :
    stretch columns rows ≤
      stretch (columns - direction.columns) (rows - direction.rows) + 1 := by
  -- What bounds the changes that are left bounds the whole changes when it is raised by one.
  have left := stretch_le_iff.mp
    (Nat.le_refl (stretch (columns - direction.columns) (rows - direction.rows)))
  have change := direction.columns_rows
  rw [stretch_le_iff]
  cases direction <;> simp only [Prod.mk.injEq] at change <;> omega

/-- From anywhere but the target some step leads nearer. -/
theorem exists_step_nearer {columns rows : Int} {steps : Nat}
    (away : stretch columns rows = steps + 1) :
    ∃ direction : Direction,
      stretch (columns - direction.columns) (rows - direction.rows) = steps := by
  have bounds := stretch_le_iff.mp (Nat.le_of_eq away)
  have apart := mt stretch_eq_zero_iff.mpr (by omega : ¬stretch columns rows = 0)
  -- A step cannot gain more than one, so it is enough to bound what it leaves.
  have nearer (direction : Direction) (dq dr : Int)
      (change : (direction.columns, direction.rows) = (dq, dr))
      (left : stretch (columns - dq) (rows - dr) ≤ steps) :
      ∃ direction : Direction,
        stretch (columns - direction.columns) (rows - direction.rows) = steps := by
    obtain ⟨rfl, rfl⟩ := Prod.mk.inj change
    have step := stretch_le_step columns rows direction
    exact ⟨direction, by omega⟩
  -- The signs of the two differences tell which of the six directions to take.
  rcases Int.lt_trichotomy columns 0 with west | middle | east
  · by_cases south : 0 < rows
    · exact nearer .southWest (-1) 1 rfl (stretch_le_iff.mpr (by omega))
    · exact nearer .west (-1) 0 rfl (stretch_le_iff.mpr (by omega))
  · by_cases south : 0 < rows
    · exact nearer .southEast 0 1 rfl (stretch_le_iff.mpr (by omega))
    · exact nearer .northWest 0 (-1) rfl (stretch_le_iff.mpr (by omega))
  · by_cases north : rows < 0
    · exact nearer .northEast 1 (-1) rfl (stretch_le_iff.mpr (by omega))
    · exact nearer .east 1 0 rfl (stretch_le_iff.mpr (by omega))

/-- The position at which a route ends, in whole numbers: the steps are taken one after the other,
and no coordinate can leave its range on the way. -/
def endOfRoute (column row : Int) : List Direction → Int × Int
  -- The position moves along, and the rest of the route starts from there.
  | [] => (column, row)
  | direction :: rest => endOfRoute (column + direction.columns) (row + direction.rows) rest

/-- A route can be followed in two parts. -/
theorem endOfRoute_append (first second : List Direction) (column row : Int) :
    endOfRoute column row (first ++ second) =
      endOfRoute (endOfRoute column row first).1 (endOfRoute column row first).2 second := by
  -- The first part is followed to its end, and the second one starts there.
  induction first generalizing column row with
  | nil => rfl
  | cons direction rest ih => exact ih _ _

/-- No route is shorter than what there is to go. -/
theorem stretch_le_length {route : List Direction} {column row column' row' : Int}
    (ends : endOfRoute column row route = (column', row')) :
    stretch (column' - column) (row' - row) ≤ route.length := by
  -- By induction on the route, each step of which leaves at most one step less to go.
  induction route generalizing column row with
  | nil =>
    simp only [endOfRoute, Prod.mk.injEq] at ends
    have arrived : stretch (column' - column) (row' - row) = 0 :=
      stretch_eq_zero_iff.mpr (by omega)
    omega
  | cons direction rest ih =>
    have rest := ih ends
    have step := stretch_le_step (column' - column) (row' - row) direction
    rw [Int.sub_sub, Int.sub_sub] at step
    rw [List.length_cons]
    omega

/-- Some route takes as many steps as there are to go. -/
theorem exists_route {steps : Nat} {column row column' row' : Int}
    (toGo : stretch (column' - column) (row' - row) = steps) :
    ∃ route, endOfRoute column row route = (column', row') ∧ route.length = steps := by
  -- By induction on what there is to go: a step that leads nearer is followed by the rest.
  induction steps generalizing column row with
  | zero =>
    obtain ⟨columns, rows⟩ := stretch_eq_zero_iff.mp toGo
    refine ⟨[], ?_, rfl⟩
    rw [endOfRoute, Prod.mk.injEq]
    omega
  | succ steps ih =>
    obtain ⟨direction, nearer⟩ := exists_step_nearer toGo
    rw [Int.sub_sub, Int.sub_sub] at nearer
    obtain ⟨route, ends, length⟩ := ih nearer
    exact ⟨direction :: route, ends, by rw [List.length_cons, length]⟩

namespace Cell

/-- The route leads from one cell to the other. -/
def Connects (a b : Cell) (route : List Direction) : Prop :=
  -- Routes run over all whole numbers, so that none is lost at the end of the range.
  endOfRoute a.q.toInt a.r.toInt route = (b.q.toInt, b.r.toInt)

/-- So many unit steps lead from one cell to the other, and no smaller number does. -/
structure IsShortest (a b : Cell) (steps : Nat) : Prop where
  attained : ∃ route, a.Connects b route ∧ route.length = steps
  least : ∀ route, a.Connects b route → steps ≤ route.length

variable {a b c : Cell}

/-- What there is to go is the length of a shortest route. -/
theorem isShortest_stretch (a b : Cell) :
    a.IsShortest b (stretch (a.q.toInt - b.q.toInt) (a.r.toInt - b.r.toInt)) := by
  -- Some route is as long as what there is to go, and no route is shorter.
  have back := stretch_neg (a.q.toInt - b.q.toInt) (a.r.toInt - b.r.toInt)
  rw [Int.neg_sub, Int.neg_sub] at back
  rw [← back]
  exact ⟨exists_route rfl, fun route connects => stretch_le_length connects⟩

/-- A way through a third cell is no shorter. -/
theorem IsShortest.triangle {first second whole : Nat} (toMiddle : a.IsShortest b first)
    (onward : b.IsShortest c second) (direct : a.IsShortest c whole) : whole ≤ first + second := by
  -- The two routes one after the other are a route.
  obtain ⟨front, leads, rfl⟩ := toMiddle.attained
  obtain ⟨back, leads', rfl⟩ := onward.attained
  have through : a.Connects c (front ++ back) := by
    unfold Connects at leads leads' ⊢
    rw [endOfRoute_append, leads]
    exact leads'
  rw [← List.length_append]
  exact direct.least _ through

/-- The steps between two cells can be counted exactly if there are fewer than `2 ^ 31`. -/
theorem distance_eq_ok_iff {steps : Nat} :
    a.distance b = .ok steps ↔
      steps = stretch (a.q.toInt - b.q.toInt) (a.r.toInt - b.r.toInt) ∧ steps < 2 ^ 31 := by
  unfold distance
  constructor
  · intro counted
    obtain ⟨dq, columns, counted⟩ := bind_eq_ok_iff.mp counted
    obtain ⟨dr, rows, counted⟩ := bind_eq_ok_iff.mp counted
    obtain ⟨axes, first, counted⟩ := bind_eq_ok_iff.mp counted
    obtain ⟨diagonal, both, counted⟩ := bind_eq_ok_iff.mp counted
    obtain ⟨total, last, counted⟩ := bind_eq_ok_iff.mp counted
    cases counted
    -- Each operation that succeeded gave the true result.
    rw [Coordinate.sub_eq_ok_iff] at columns rows
    rw [Coordinate.add_eq_ok_iff] at both
    obtain ⟨rfl, _⟩ := Coordinate.addSteps_eq_ok_iff.mp first
    obtain ⟨rfl, inRange⟩ := Coordinate.addSteps_eq_ok_iff.mp last
    rw [stretch_eq_half, ← columns, ← rows, ← both]
    exact ⟨rfl, by omega⟩
  · -- None of the three differences is as large as `2 ^ 31`, so every operation succeeds.
    rintro ⟨rfl, near⟩
    have bounds := stretch_le_iff.mp (Nat.le_of_lt_succ near)
    obtain ⟨dq, first, columns⟩ := Coordinate.exists_sub (a := a.q) (b := b.q) (by omega) (by omega)
    obtain ⟨dr, second, rows⟩ := Coordinate.exists_sub (a := a.r) (b := b.r) (by omega) (by omega)
    obtain ⟨diagonal, third, both⟩ :=
      Coordinate.exists_add (a := dq) (b := dr) (by omega) (by omega)
    rw [← columns, ← rows, stretch_eq_half, ← both] at near ⊢
    have axes : Coordinate.addSteps dq.toInt.natAbs dr.toInt.natAbs =
        .ok (dq.toInt.natAbs + dr.toInt.natAbs) :=
      Coordinate.addSteps_eq_ok_iff.mpr ⟨rfl, by omega⟩
    have total : Coordinate.addSteps (dq.toInt.natAbs + dr.toInt.natAbs) diagonal.toInt.natAbs =
        .ok (dq.toInt.natAbs + dr.toInt.natAbs + diagonal.toInt.natAbs) :=
      Coordinate.addSteps_eq_ok_iff.mpr ⟨rfl, by omega⟩
    simp only [first, second, third, axes, total, Bind.bind, Except.bind]
    rfl

/-- A distance is the same there and back. -/
theorem distance_comm {steps : Nat} : a.distance b = .ok steps ↔ b.distance a = .ok steps := by
  -- What there is to go is the same there and back, and so are the bounds.
  have back := stretch_neg (a.q.toInt - b.q.toInt) (a.r.toInt - b.r.toInt)
  rw [Int.neg_sub, Int.neg_sub] at back
  rw [distance_eq_ok_iff, distance_eq_ok_iff, back]

/-- The steps between two cells cannot be counted exactly if one of the three differences of cube
coordinates is too large. -/
theorem exists_distance_eq_error_iff :
    (∃ error, a.distance b = .error error) ↔
      2 ^ 31 ≤ stretch (a.q.toInt - b.q.toInt) (a.r.toInt - b.r.toInt) := by
  cases counted : a.distance b with
  | ok steps =>
    obtain ⟨rfl, near⟩ := distance_eq_ok_iff.mp counted
    simp only [reduceCtorEq, exists_false, false_iff]
    omega
  | error error =>
    -- Were the differences small enough, the count would have succeeded.
    simp only [Except.error.injEq, exists_eq', true_iff]
    apply Nat.le_of_not_lt
    intro near
    have counts := distance_eq_ok_iff.mpr ⟨rfl, near⟩
    rw [counts] at counted
    cases counted

/-- A neighbour is one step away. -/
theorem distance_of_neighbor {direction : Direction} (stepped : a.neighbor direction = .ok b) :
    a.distance b = .ok 1 := by
  -- The differences are those of the step, turned round.
  obtain ⟨column, row⟩ := neighbor_eq_ok_iff.mp stepped
  have change := direction.columns_rows
  refine distance_eq_ok_iff.mpr ⟨?_, by decide⟩
  unfold stretch
  cases direction <;> simp only [Prod.mk.injEq] at change <;> omega

/-- Cells are found to be adjacent exactly if they are one step apart. -/
theorem isNeighborOf_of_distance {steps : Nat} (counted : a.distance b = .ok steps) :
    a.isNeighborOf b = .ok (steps == 1) := by
  -- The test counts the steps.
  simp [isNeighborOf, counted, Bind.bind, Except.bind, Pure.pure, Except.pure]

/-- So a neighbour is found to be adjacent. -/
theorem isNeighborOf_of_neighbor {direction : Direction}
    (stepped : a.neighbor direction = .ok b) : a.isNeighborOf b = .ok true :=
  -- One step leads there, and no fewer do.
  isNeighborOf_of_distance (distance_of_neighbor stepped)

/-- A cell that is one step away is the neighbour in some direction. -/
theorem exists_neighbor_of_distance (counted : a.distance b = .ok 1) :
    ∃ direction, a.neighbor direction = .ok b := by
  -- The one step of a shortest route ends on the cell itself, so no coordinate leaves its range.
  obtain ⟨one, _⟩ := distance_eq_ok_iff.mp counted
  have shortest := isShortest_stretch a b
  rw [← one] at shortest
  obtain ⟨route, connects, length⟩ := shortest.attained
  obtain ⟨direction, rfl⟩ := List.length_eq_one_iff.mp length
  simp only [Connects, endOfRoute, Prod.mk.injEq] at connects
  exact ⟨direction, neighbor_eq_ok_iff.mpr ⟨connects.1.symm, connects.2.symm⟩⟩

/-- The direction that is found leads to the other cell, and if none is found no direction does. -/
theorem headingTo_eq_ok {found : Option Direction} (tried : a.headingTo b = .ok found) :
    (∀ direction, found = some direction → a.neighbor direction = .ok b) ∧
      (found = none → ∀ direction, a.neighbor direction ≠ .ok b) := by
  -- A search for the first hit passes there and fails at every direction before.
  obtain ⟨passes, fails⟩ := findM?_eq_ok tried
  constructor
  · intro direction found
    obtain ⟨next, stepped, same⟩ := bind_eq_ok_iff.mp (passes direction found)
    rw [stepped, beq_iff_eq.mp (Except.ok.inj same)]
  · intro none direction stepped
    have missed := fails none direction direction.mem_all
    rw [stepped] at missed
    simp [Bind.bind, Except.bind, Pure.pure, Except.pure] at missed

/-- Where the steps can be counted and the directions can be tried, cells are found to be adjacent
exactly if a direction is found. -/
theorem isNeighborOf_of_headingTo {steps : Nat} {found : Option Direction}
    (counted : a.distance b = .ok steps) (tried : a.headingTo b = .ok found) :
    a.isNeighborOf b = .ok found.isSome := by
  obtain ⟨leads, misses⟩ := headingTo_eq_ok tried
  cases found with
  | some direction => exact isNeighborOf_of_neighbor (leads direction rfl)
  | none =>
    -- No direction leads to the other cell, so it is not one step away.
    have apart : steps ≠ 1 := by
      rintro rfl
      obtain ⟨direction, stepped⟩ := exists_neighbor_of_distance counted
      exact misses rfl direction stepped
    rw [isNeighborOf_of_distance counted, beq_false_of_ne apart]
    rfl

/-- The direction that is found is the only one that leads to the other cell, and on the way back
only its opposite is found. -/
theorem headingTo_eq_some {direction : Direction} (tried : a.headingTo b = .ok (some direction)) :
    a.neighbor direction = .ok b ∧ (∀ other, a.neighbor other = .ok b → other = direction) ∧
      ∀ back, b.headingTo a = .ok back → back = some direction.opposite := by
  have stepped := (headingTo_eq_ok tried).1 direction rfl
  refine ⟨stepped, fun other also => direction_unique also stepped, fun back returned => ?_⟩
  -- The opposite direction leads back, and no other direction does.
  have opposite := neighbor_opposite stepped
  obtain ⟨leads, misses⟩ := headingTo_eq_ok returned
  cases back with
  | none => exact absurd opposite (misses rfl direction.opposite)
  | some found => rw [direction_unique (leads found rfl) opposite]

/-- The steps between two cells cannot be counted exactly if one of the three differences of their
cube coordinates lies beyond `2 ^ 31 - 1` on either side. Otherwise the count is the least number of
unit steps from the one to the other, the same there and back, and no larger than the sum of two
counts through a third cell. Where the directions can be tried as well, the cells are adjacent
exactly if a direction is found, which is then the only one that leads there, and whose opposite
leads back. -/
theorem distance_spec (a b : Cell) :
    ((∃ error, a.distance b = .error error) ↔
      ∃ difference ∈ [a.q.toInt - b.q.toInt, a.r.toInt - b.r.toInt,
          (a.q.toInt - b.q.toInt) + (a.r.toInt - b.r.toInt)],
        difference < -(2 ^ 31 - 1) ∨ 2 ^ 31 - 1 < difference) ∧
    (∀ steps, a.distance b = .ok steps → a.IsShortest b steps ∧ b.distance a = .ok steps) ∧
    (∀ c first second whole, a.distance b = .ok first → b.distance c = .ok second →
      a.distance c = .ok whole → whole ≤ first + second) ∧
    ∀ steps found, a.distance b = .ok steps → a.headingTo b = .ok found →
      a.isNeighborOf b = .ok found.isSome ∧
        ∀ direction, found = some direction → a.neighbor direction = .ok b ∧
          (∀ other, a.neighbor other = .ok b → other = direction) ∧
            ∀ back, b.headingTo a = .ok back → back = some direction.opposite := by
  -- Each part has its own theorem; here they are put together.
  have shortest {a b : Cell} {steps : Nat} (counted : a.distance b = .ok steps) :
      a.IsShortest b steps := by
    rw [(distance_eq_ok_iff.mp counted).1]
    exact isShortest_stretch a b
  refine ⟨?_, ?_, ?_, ?_⟩
  · rw [exists_distance_eq_error_iff, stretch]
    simp only [List.mem_cons, List.not_mem_nil, or_false, exists_eq_or_imp, exists_eq_left]
    omega
  · intro steps counted
    exact ⟨shortest counted, distance_comm.mp counted⟩
  · intro c first second whole toMiddle onward direct
    exact (shortest toMiddle).triangle (shortest onward) (shortest direct)
  · intro steps found counted tried
    refine ⟨isNeighborOf_of_headingTo counted tried, ?_⟩
    rintro direction rfl
    exact headingTo_eq_some tried

/-- From one end of a row to the other the steps can just be counted, and one cell further they
cannot. Two cells in the middle are found to be adjacent, and the step between them is found both
ways. -/
theorem distance_spec_farRow :
    (⟨2147483647, 0⟩ : Cell).IsShortest ⟨0, 0⟩ 2147483647 ∧
      (∃ error, (⟨2147483647, 0⟩ : Cell).distance ⟨-1, 0⟩ = .error error) ∧
      (⟨5, 3⟩ : Cell).isNeighborOf ⟨4, 4⟩ = .ok true ∧
      ∀ back, (⟨4, 4⟩ : Cell).headingTo ⟨5, 3⟩ = .ok back → back = some .northEast := by
  -- The three pairs of cells are computed, and the rest is read off the theorem.
  have counted : (⟨2147483647, 0⟩ : Cell).distance ⟨0, 0⟩ = .ok 2147483647 := by decide
  have near : (⟨5, 3⟩ : Cell).distance ⟨4, 4⟩ = .ok 1 := by decide
  have tried : (⟨5, 3⟩ : Cell).headingTo ⟨4, 4⟩ = .ok (some .southWest) := by decide
  obtain ⟨_, counts, _, _⟩ := distance_spec ⟨2147483647, 0⟩ ⟨0, 0⟩
  obtain ⟨fails, _, _, _⟩ := distance_spec ⟨2147483647, 0⟩ ⟨-1, 0⟩
  obtain ⟨_, _, _, agrees⟩ := distance_spec ⟨5, 3⟩ ⟨4, 4⟩
  obtain ⟨adjacent, leads⟩ := agrees 1 (some .southWest) near tried
  obtain ⟨_, _, back⟩ := leads .southWest rfl
  exact ⟨(counts _ counted).1, fails.mpr (by decide), adjacent, back⟩

end Cell

end WordTiles
