import WordTiles.World.Basic

/-! Changes to a world: entities are created, moved, changed and removed. -/

namespace WordTiles.World

/-- Fails unless the cell lies on the grid. -/
def checkInside (world : World) (cell : Cell) : Except Error Unit :=
  -- The refusal names the cell and the extents of the grid.
  if world.contains cell then .ok () else .error (.outOfBounds cell world.width world.height)

/-- Takes an entity out of the stack of a cell. -/
def leave (world : World) (id : EntityId) (cell : Cell) : World :=
  -- A cell and an entity make one entry, whatever lies above or below it.
  { world with layers := world.layers.filter (· != (cell, id)) }

/-- Puts an entity on top of the stack of a cell. -/
def enter (world : World) (id : EntityId) (cell : Cell) : World :=
  -- The latest arrival is the last entry, and so the top of its stack.
  { world with layers := world.layers ++ [(cell, id)] }

/-- Leaving takes every trace of an entity out of the one stack. -/
@[simp] theorem stackAt_leave {world : World} {id : EntityId} {cell other : Cell} :
    (world.leave id cell).stackAt other =
      if cell = other then (world.stackAt other).filter (· != id) else world.stackAt other := by
  -- Both sides filter the arrivals, by cell and by entity.
  have split (entry : Cell × EntityId) :
      (entry == (cell, id)) = (entry.1 == cell && entry.2 == id) := rfl
  by_cases same : cell = other
  · subst same
    simp only [stackAt, leave, List.filter_filter, List.filter_map, if_true]
    refine congrArg (List.map Prod.snd) (List.filter_congr fun entry _ => ?_)
    cases here : entry.1 == cell <;> simp [split, here, bne]
  · simp only [stackAt, leave, List.filter_filter, same, if_false]
    refine congrArg (List.map Prod.snd) (List.filter_congr fun entry _ => ?_)
    by_cases here : entry.1 = other <;> simp [split, here, bne, Ne.symm same]

/-- Entering puts an entity on top of the one stack. -/
@[simp] theorem stackAt_enter {world : World} {id : EntityId} {cell other : Cell} :
    (world.enter id cell).stackAt other =
      world.stackAt other ++ if cell = other then [id] else [] := by
  -- An entry of another cell is filtered out again.
  by_cases same : cell = other <;> simp [stackAt, enter, same]

/-- Changes every entity. All keep their identifiers and their places in the stacks. -/
def mapEntities (world : World) (change : Entity → Entity) : World :=
  -- Writing the identifier back keeps the entities in their order.
  { world with
    entities := world.entities.map fun entity => { change entity with id := entity.id }
    ascending := by simpa only [List.pairwise_map] using world.ascending
    fresh := by
      intro entity member
      obtain ⟨before, live, rfl⟩ := List.mem_map.mp member
      exact world.fresh before live }

/-- Changes a live entity, which keeps its identifier and its place in the stacks. -/
def modify (world : World) (id : EntityId) (change : Entity → Entity) : World :=
  -- All others are mapped to themselves.
  world.mapEntities fun entity => if entity.id = id then change entity else entity

/-- Creates an entity on top of the stack of its cell. The identifiers can run out. -/
def insert (world : World) (spawn : SpawnRequest) : Except Error (EntityId × World) :=
  if room : world.nextId.toNat + 1 < UInt32.size then
    let id : EntityId := ⟨world.nextId⟩
    -- There is room for the next identifier, so that adding one does not wrap.
    have grows : (world.nextId + 1).toNat = world.nextId.toNat + 1 := by
      rw [UInt32.toNat_add]; exact Nat.mod_eq_of_lt room
    let created : World :=
      { world with
        entities := world.entities ++ [.ofSpawn id spawn]
        nextId := world.nextId + 1
        ascending := by
          refine List.pairwise_append.mpr ⟨world.ascending, List.pairwise_singleton .., ?_⟩
          intro entity live added member
          rw [List.mem_singleton.mp member]
          -- Every live identifier is below the new one.
          exact world.fresh entity live
        fresh := by
          intro entity member
          rw [UInt32.lt_iff_toNat_lt, grows]
          rcases List.mem_append.mp member with live | added
          · have older := UInt32.lt_iff_toNat_lt.mp (world.fresh entity live)
            omega
          · rw [List.mem_singleton.mp added]
            exact Nat.lt_succ_self _ }
    .ok (id, created.enter id spawn.position)
  else .error .sumOverflow

/-- Creates an entity on the grid. -/
def place (world : World) (spawn : SpawnRequest) : Except Error (EntityId × World) := do
  -- The cell is checked before an identifier is given out.
  world.checkInside spawn.position
  world.insert spawn

/-- Creates an entity for a caller who vouches for its cell: a cell outside the grid is a fault. -/
def create (world : World) (request : SpawnRequest) : Except Error (EntityId × World) :=
  -- The caller has read the cell off the world, so that a cell outside is no refusal.
  if world.contains request.position then world.insert request
  else .error (.createdOutside request.position)

/-- Creates entities one after the other. -/
def createAll (world : World) : List SpawnRequest → Except Error (List EntityId × World)
  | [] => .ok ([], world)
  -- Later requests meet the world that the earlier ones have left.
  | request :: rest => do
    let (id, world) ← world.create request
    let (ids, world) ← world.createAll rest
    return (id :: ids, world)

/-- Moves an entity to the top of the stack of a cell. The cell is checked before the entity. -/
def move (world : World) (id : EntityId) (target : Cell) : Except Error World := do
  world.checkInside target
  match world.find? id with
  | none => throw (.entityNotFound id)
  | some entity =>
    -- A move within a cell is an arrival too: the entity ends on top.
    return ((world.leave id entity.position).enter id target).modify id
      fun moved => { moved with position := target }

/-- Removes an entity if it is live, and returns it. -/
def take? (world : World) (id : EntityId) : Option (Entity × World) := do
  -- The entity leaves the list and its stack together.
  let entity ← world.find? id
  let remaining : World :=
    { world with
      entities := world.entities.filter (·.id != id)
      ascending := world.ascending.filter _
      fresh := fun other member => world.fresh other (List.mem_filter.mp member).1 }
  return (entity, remaining.leave id entity.position)

/-- The world without an entity, whether it was live or not. -/
def erase (world : World) (id : EntityId) : World :=
  -- An entity that is not live has left before, or never came.
  match world.take? id with
  | some (_, remaining) => remaining
  | none => world

/-- The world without any of a list of entities. -/
def eraseAll (world : World) (ids : List EntityId) : World :=
  -- The order does not matter, and a second removal of one entity changes nothing.
  ids.foldl erase world

/-- Removes a live entity and returns it. -/
def remove (world : World) (id : EntityId) : Except Error (Entity × World) :=
  -- Only here is a missing entity reported.
  match world.take? id with
  | some removed => .ok removed
  | none => .error (.entityNotFound id)

end WordTiles.World
