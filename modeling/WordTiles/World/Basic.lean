import WordTiles.Entity
import WordTiles.Hex.Grid

/-! Worlds: a rhombus of cells, the live entities, and the order in which they arrived on their
cells. -/

namespace WordTiles

/-- A world: a grid with entities on its cells. -/
structure World extends Grid where
  /-- The live entities, by ascending identifier. -/
  entities : List Entity
  /-- Every arrival that still counts, oldest first: a cell and the entity that came to it. The
  entries of one cell are its stack, bottom layer first. -/
  layers : List (Cell × EntityId)
  /-- The identifier of the next entity. -/
  nextId : UInt32
  width_pos : 0 < width
  height_pos : 0 < height
  ascending : entities.Pairwise fun a b => a.id < b.id
  fresh : ∀ entity ∈ entities, entity.id.val < nextId
  deriving DecidableEq

namespace World

/-- The world without an entity, which has at least one cell. -/
def empty (width height : Int32) : Except Error World :=
  -- The first identifier is zero, and none is ever used a second time.
  if positive : 0 < width ∧ 0 < height then
    .ok
      { width, height
        entities := []
        layers := []
        nextId := 0
        width_pos := positive.1
        height_pos := positive.2
        ascending := .nil
        fresh := by simp }
  else .error .emptyGrid

/-- The live entity with an identifier. -/
def find? (world : World) (id : EntityId) : Option Entity :=
  world.entities.find? (·.id == id)

/-- The entity found under an identifier is the one live entity that has it. -/
theorem find?_eq_some_iff {world : World} {id : EntityId} {entity : Entity} :
    world.find? id = some entity ↔ entity ∈ world.entities ∧ entity.id = id := by
  -- The search returns the first match, and ascending identifiers allow no second one.
  have unique : ∀ list : List Entity, (list.Pairwise fun a b => a.id < b.id) →
      (list.find? (·.id == id) = some entity ↔ entity ∈ list ∧ entity.id = id) := by
    intro list ascending
    induction list with
    | nil => simp
    | cons head rest ih =>
      obtain ⟨least, ascending⟩ := List.pairwise_cons.mp ascending
      -- A first hit ends the search; what comes after it has a larger identifier.
      by_cases same : head.id = id
      · simp only [List.find?_cons, same, beq_self_eq_true, Option.some.injEq, List.mem_cons]
        constructor
        · rintro rfl
          exact ⟨.inl rfl, same⟩
        · rintro ⟨rfl | later, found⟩
          · rfl
          · have less := least entity later
            rw [same, found] at less
            exact absurd less (UInt32.lt_irrefl _)
      · have differs : (head.id == id) = false := by simpa using same
        simp only [List.find?_cons, differs, ih ascending, List.mem_cons]
        constructor
        · exact fun ⟨member, found⟩ => ⟨.inr member, found⟩
        · rintro ⟨rfl | member, found⟩
          · exact absurd found same
          · exact ⟨member, found⟩
  exact unique world.entities world.ascending

/-- The stack of a cell, bottom layer first. -/
def stackAt (world : World) (cell : Cell) : List EntityId :=
  -- The arrivals of other cells are passed over, and the order is kept.
  (world.layers.filter (·.1 == cell)).map Prod.snd

/-- The live entities in the stack of a cell, bottom layer first. -/
def occupants (world : World) (cell : Cell) : List Entity :=
  -- Each entry of a stack is looked up by itself.
  (world.stackAt cell).filterMap world.find?

/-- The identifiers of the live entities, ascending. -/
def ids (world : World) : List EntityId :=
  world.entities.map (·.id)

/-- The identifiers of the live entities of a category, ascending. -/
def idsOf (world : World) (category : Category) : List EntityId :=
  -- Entities are held by ascending identifier, and filtering keeps that order.
  (world.entities.filter (·.category == category)).map (·.id)

/-- The number of live entities. -/
def size (world : World) : Nat := world.entities.length

/-- No entity is live. -/
def isEmpty (world : World) : Bool := world.entities.isEmpty

/-- The cells on which live entities stand, in order, each once. -/
def occupied (world : World) : List Cell :=
  -- Cells are sorted by column and row, which does not depend on the order of arrival.
  (world.entities.map (·.position)).eraseDups.mergeSort fun a b => (compare a b).isLE

end World

end WordTiles
