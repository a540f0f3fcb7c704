import WordTiles.World.Edit

/-! Worlds that a host can bring about, and the agreement of their entities with their stacks that
no change breaks. -/

namespace WordTiles

namespace World

/-- The worlds that a host can bring about from one without an entity. An entity that is changed in
place, be it in its word, its category or its grants, stays on its cell. -/
inductive Reachable : World → Prop where
  | empty {width height : Int32} {world : World} (built : World.empty width height = .ok world) :
      Reachable world
  | place {world after : World} {spawn : SpawnRequest} {id : EntityId} (before : Reachable world)
      (placed : world.place spawn = .ok (id, after)) : Reachable after
  | create {world after : World} {spawn : SpawnRequest} {id : EntityId} (before : Reachable world)
      (created : world.create spawn = .ok (id, after)) : Reachable after
  | move {world after : World} {id : EntityId} {target : Cell} (before : Reachable world)
      (moved : world.move id target = .ok after) : Reachable after
  | remove {world after : World} {id : EntityId} {entity : Entity} (before : Reachable world)
      (removed : world.remove id = .ok (entity, after)) : Reachable after
  | erase {world : World} (before : Reachable world) (id : EntityId) : Reachable (world.erase id)
  | change {world : World} (before : Reachable world) {change : Entity → Entity}
      (still : ∀ entity, (change entity).position = entity.position) :
      Reachable (world.mapEntities change)

/-- The entities and the stacks of a world agree: every entity stands on the grid, in the stack of
its own cell, once, and in no other. -/
structure Consistent (world : World) : Prop where
  inside : ∀ entity ∈ world.entities, world.contains entity.position = true
  mem_layers : ∀ {cell : Cell} {id : EntityId}, (cell, id) ∈ world.layers ↔
    ∃ entity ∈ world.entities, entity.id = id ∧ entity.position = cell
  nodup : world.layers.Nodup

/-- No two live entities share an identifier. -/
theorem eq_of_id {world : World} {a b : Entity} (left : a ∈ world.entities)
    (right : b ∈ world.entities) (same : a.id = b.id) : a = b := by
  -- Looking the identifier up finds both.
  have one := find?_eq_some_iff.mpr ⟨left, same⟩
  have other := find?_eq_some_iff.mpr ⟨right, rfl⟩
  rw [one] at other
  exact Option.some.inj other

/-- No live entity has the identifier of the next one. -/
theorem id_ne_next {world : World} {entity : Entity} (live : entity ∈ world.entities) :
    entity.id ≠ ⟨world.nextId⟩ := by
  -- Every live identifier is below the next one.
  intro same
  have less := world.fresh entity live
  rw [same] at less
  exact UInt32.lt_irrefl _ less

/-- What creating an entity makes of a world. -/
theorem insert_eq_ok {world after : World} {spawn : SpawnRequest} {id : EntityId}
    (inserted : world.insert spawn = .ok (id, after)) :
    id = ⟨world.nextId⟩ ∧ after.toGrid = world.toGrid ∧
      after.entities = world.entities ++ [.ofSpawn id spawn] ∧
      after.layers = world.layers ++ [(spawn.position, id)] := by
  -- There is one way to succeed.
  unfold insert at inserted
  split at inserted
  · cases inserted
    exact ⟨rfl, rfl, rfl, rfl⟩
  · cases inserted

/-- Placing an entity tests the cell and creates the entity there. -/
theorem place_eq_ok {world after : World} {spawn : SpawnRequest} {id : EntityId}
    (placed : world.place spawn = .ok (id, after)) :
    world.contains spawn.position = true ∧ world.insert spawn = .ok (id, after) := by
  -- The refusal is the only other way out.
  unfold place checkInside at placed
  split at placed
  · exact ⟨‹_›, placed⟩
  · cases placed

/-- So does creating one for a caller who vouches for the cell. -/
theorem create_eq_ok {world after : World} {spawn : SpawnRequest} {id : EntityId}
    (created : world.create spawn = .ok (id, after)) :
    world.contains spawn.position = true ∧ world.insert spawn = .ok (id, after) := by
  -- The fault is the only other way out.
  unfold create at created
  split at created
  · exact ⟨‹_›, created⟩
  · cases created

/-- What taking an entity out makes of a world. -/
theorem take?_eq_some {world after : World} {id : EntityId} {entity : Entity}
    (taken : world.take? id = some (entity, after)) :
    world.find? id = some entity ∧ after.toGrid = world.toGrid ∧
      after.entities = world.entities.filter (·.id != id) ∧
      after.layers = world.layers.filter (· != (entity.position, id)) := by
  -- The entity that is found is the one that is taken out.
  unfold take? at taken
  cases found : world.find? id with
  | none => simp [found, Bind.bind, Option.bind] at taken
  | some live =>
    simp only [found, Bind.bind, Option.bind, Pure.pure, Option.some.injEq, Prod.mk.injEq] at taken
    obtain ⟨rfl, rfl⟩ := taken
    exact ⟨rfl, rfl, rfl, rfl⟩

/-- What moving an entity makes of a world. -/
theorem move_eq_ok {world after : World} {id : EntityId} {target : Cell}
    (moved : world.move id target = .ok after) :
    world.contains target = true ∧ ∃ entity, world.find? id = some entity ∧
      after = ((world.leave id entity.position).enter id target).modify id
        fun moved => { moved with position := target } := by
  -- The cell is tested before the entity is looked up.
  unfold move checkInside at moved
  split at moved
  · rename_i inside
    cases found : world.find? id with
    | none => simp [found, Bind.bind, Except.bind, throw, throwThe, MonadExceptOf.throw] at moved
    | some entity =>
      simp only [found, Bind.bind, Except.bind, Pure.pure, Except.pure, Except.ok.injEq] at moved
      exact ⟨inside, entity, rfl, moved.symm⟩
  · cases moved

namespace Consistent

/-- A world without an entity is consistent. -/
theorem empty {width height : Int32} {world : World}
    (built : World.empty width height = .ok world) : world.Consistent := by
  -- There are neither entities nor arrivals that could disagree.
  unfold World.empty at built
  split at built
  · cases built
    exact ⟨by simp, by simp, .nil⟩
  · cases built

/-- Creating an entity on the grid keeps a world consistent. -/
theorem insert {world after : World} (consistent : world.Consistent) {spawn : SpawnRequest}
    {id : EntityId} (inside : world.contains spawn.position = true)
    (inserted : world.insert spawn = .ok (id, after)) : after.Consistent := by
  -- Nobody had the new identifier, so its one entry in the stacks is new as well.
  obtain ⟨rfl, grid, entities, layers⟩ := insert_eq_ok inserted
  constructor
  · intro entity live
    rw [entities, List.mem_append, List.mem_singleton] at live
    rw [grid]
    -- The new entity stands where it was asked for.
    rcases live with live | rfl
    · exact consistent.inside entity live
    · exact inside
  · intro cell other
    simp only [entities, layers, List.mem_append, List.mem_singleton, or_and_right, exists_or,
      exists_eq_left, consistent.mem_layers, Prod.mk.injEq]
    exact or_congr Iff.rfl (and_comm.trans (and_congr eq_comm eq_comm))
  · rw [layers]
    -- No entry has named the new identifier before.
    refine List.nodup_append.mpr ⟨consistent.nodup, by simp, ?_⟩
    rintro ⟨cell, other⟩ listed entry added same
    rw [List.mem_singleton.mp added, Prod.mk.injEq] at same
    obtain ⟨_, rfl⟩ := same
    obtain ⟨entity, live, known, _⟩ := consistent.mem_layers.mp listed
    exact id_ne_next live known

/-- Taking an entity out keeps a world consistent. -/
theorem take? {world after : World} (consistent : world.Consistent) {id : EntityId}
    {entity : Entity} (taken : world.take? id = some (entity, after)) : after.Consistent := by
  -- The entity had one entry in the stacks, under its own cell.
  obtain ⟨found, grid, entities, layers⟩ := take?_eq_some taken
  obtain ⟨live, rfl⟩ := find?_eq_some_iff.mp found
  constructor
  · intro other remains
    rw [entities] at remains
    rw [grid]
    exact consistent.inside other (List.mem_filter.mp remains).1
  · intro cell other
    simp only [entities, layers, List.mem_filter, consistent.mem_layers, bne_iff_ne, ne_eq,
      Prod.mk.injEq, not_and]
    constructor
    · -- An entry that is left belongs to somebody else, since this one is gone.
      rintro ⟨⟨owner, known, rfl, rfl⟩, kept⟩
      refine ⟨owner, ⟨known, fun same => ?_⟩, rfl, rfl⟩
      cases eq_of_id known live same
      exact kept rfl rfl
    · rintro ⟨owner, ⟨known, differs⟩, rfl, rfl⟩
      exact ⟨⟨owner, known, rfl, rfl⟩, fun _ => differs⟩
  · rw [layers]
    exact consistent.nodup.filter _

/-- Changing entities in place keeps a world consistent. -/
theorem mapEntities {world : World} (consistent : world.Consistent) {change : Entity → Entity}
    (still : ∀ entity, (change entity).position = entity.position) :
    (world.mapEntities change).Consistent := by
  -- Neither the identifiers nor the positions change, and the stacks list nothing else.
  constructor
  · intro entity member
    obtain ⟨before, live, rfl⟩ := List.mem_map.mp member
    change world.contains (change before).position = true
    rw [still]
    exact consistent.inside before live
  · intro cell id
    change (cell, id) ∈ world.layers ↔ _
    rw [consistent.mem_layers]
    constructor
    · rintro ⟨entity, live, same, here⟩
      exact ⟨_, List.mem_map.mpr ⟨entity, live, rfl⟩, same, (still entity).trans here⟩
    · rintro ⟨entity, member, same, here⟩
      obtain ⟨before, live, rfl⟩ := List.mem_map.mp member
      exact ⟨before, live, same, (still before).symm.trans here⟩
  · exact consistent.nodup

/-- Moving an entity keeps a world consistent. -/
theorem move {world after : World} (consistent : world.Consistent) {id : EntityId} {target : Cell}
    (moved : world.move id target = .ok after) : after.Consistent := by
  -- The one entry of the entity is exchanged for another one, together with its position.
  obtain ⟨inside, entity, found, rfl⟩ := move_eq_ok moved
  obtain ⟨live, rfl⟩ := find?_eq_some_iff.mp found
  constructor
  · intro other member
    -- The moved entity stands on its target, and the others where they stood.
    obtain ⟨before, known, rfl⟩ := List.mem_map.mp member
    change world.contains _ = true
    dsimp only
    split
    · exact inside
    · exact consistent.inside before known
  · -- The moved entity has the new entry alone, and everybody else has the old one.
    intro cell id
    change (cell, id) ∈ world.layers.filter _ ++ [_] ↔ _
    simp only [List.mem_append, List.mem_filter, List.mem_singleton, bne_iff_ne, ne_eq,
      Prod.mk.injEq, not_and, consistent.mem_layers]
    constructor
    · rintro (⟨⟨owner, known, rfl, rfl⟩, kept⟩ | ⟨rfl, rfl⟩)
      · refine ⟨_, List.mem_map.mpr ⟨owner, known, rfl⟩, rfl, ?_⟩
        -- An old entry that was kept belongs to somebody else.
        have differs : owner.id ≠ entity.id := by
          intro same
          cases eq_of_id known live same
          exact kept rfl rfl
        simp [differs]
      · exact ⟨_, List.mem_map.mpr ⟨entity, live, rfl⟩, rfl, by simp⟩
    · rintro ⟨_, member, rfl, rfl⟩
      obtain ⟨owner, known, rfl⟩ := List.mem_map.mp member
      by_cases same : owner.id = entity.id
      · exact .inr (by simp [same])
      · exact .inl ⟨⟨owner, known, rfl, by simp [same]⟩, fun _ => same⟩
  · change (world.layers.filter _ ++ [_]).Nodup
    -- The new entry is not among those that were kept.
    refine List.nodup_append.mpr ⟨consistent.nodup.filter _, by simp, ?_⟩
    rintro ⟨cell, other⟩ listed entry added same
    rw [List.mem_singleton.mp added, Prod.mk.injEq] at same
    obtain ⟨rfl, rfl⟩ := same
    obtain ⟨listed, kept⟩ := List.mem_filter.mp listed
    obtain ⟨owner, known, same, rfl⟩ := consistent.mem_layers.mp listed
    cases eq_of_id known live same
    simp at kept

end Consistent

/-- Erasing an entity keeps a world consistent. -/
theorem Consistent.erase {world : World} (consistent : world.Consistent) (id : EntityId) :
    (world.erase id).Consistent := by
  -- Erasing removes a live entity or does nothing.
  unfold World.erase
  split
  · exact consistent.take? ‹_›
  · exact consistent

/-- The entities and the stacks of every world that a host can bring about agree. -/
theorem Reachable.consistent {world : World} (reachable : world.Reachable) :
    world.Consistent := by
  -- Each way to change a world keeps the two in agreement.
  induction reachable with
  | empty built => exact .empty built
  | place _ placed ih =>
    obtain ⟨inside, inserted⟩ := place_eq_ok placed
    exact ih.insert inside inserted
  | create _ created ih =>
    obtain ⟨inside, inserted⟩ := create_eq_ok created
    exact ih.insert inside inserted
  | move _ moved ih => exact ih.move moved
  | remove _ removed ih =>
    -- Removing an entity takes it off, or fails.
    unfold World.remove at removed
    split at removed
    · cases removed
      exact ih.take? ‹_›
    · cases removed
  | erase _ id ih => exact ih.erase id
  | change _ still ih => exact ih.mapEntities still

/-- What creating several entities does is done one by one. -/
theorem createAll_induction {requests : List SpawnRequest} {motive : World → Prop}
    (step : ∀ world after request id, request ∈ requests → motive world →
      world.create request = .ok (id, after) → motive after)
    {world after : World} {ids : List EntityId} (start : motive world)
    (created : world.createAll requests = .ok (ids, after)) : motive after := by
  -- By induction on the requests, the first of which leads to the world of the rest.
  induction requests generalizing world ids with
  | nil =>
    cases created
    exact start
  | cons request rest ih =>
    obtain ⟨⟨id, middle⟩, first, created⟩ := bind_eq_ok_iff.mp created
    obtain ⟨⟨others, last⟩, later, created⟩ := bind_eq_ok_iff.mp created
    cases created
    exact ih (fun world after other id member => step world after other id (by simp [member]))
      (step _ _ _ _ (by simp) start first) later

/-- Whatever a host creates, one entity after the other, makes a world that it can bring about. -/
theorem Reachable.createAll {world after : World} (reachable : world.Reachable)
    {requests : List SpawnRequest} {ids : List EntityId}
    (created : world.createAll requests = .ok (ids, after)) : after.Reachable :=
  -- Each creation by itself is one of the ways to bring a world about.
  createAll_induction (fun _ _ _ _ _ before made => before.create made) reachable created

/-- A host can erase entities one after the other. -/
theorem Reachable.eraseAll {world : World} (reachable : world.Reachable) (ids : List EntityId) :
    (world.eraseAll ids).Reachable := by
  -- The entities are erased from the front of the list.
  unfold World.eraseAll
  induction ids generalizing world with
  | nil => exact reachable
  | cons id rest ih => exact ih (reachable.erase id)

/-- The world of one row of word tiles. -/
def row (words : List Word) : Except Error World := do
  -- The words lie side by side from the left edge on.
  let world ← World.empty (.ofNat words.length) 1
  let tiles := words.zipIdx.map fun (word, column) => SpawnRequest.tile word ⟨.ofNat column, 0⟩
  return (← world.createAll tiles).2

/-- A host can bring about a row of word tiles. -/
theorem Reachable.row {words : List Word} {world : World} (built : World.row words = .ok world) :
    world.Reachable := by
  -- The row starts from a world without an entity, to which tiles are added.
  obtain ⟨bare, empty, built⟩ := bind_eq_ok_iff.mp built
  obtain ⟨⟨ids, after⟩, created, built⟩ := bind_eq_ok_iff.mp built
  cases built
  exact (Reachable.empty empty).createAll created

end World

end WordTiles
