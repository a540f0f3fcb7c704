import Mathlib.Data.List.Nodup
import WordTiles.Proofs.World.Words
import WordTiles.Rules.Outcome

/-! Which entities are there after a change of a world: the erased ones are gone, the created ones
come last, and nobody else is touched. -/

namespace WordTiles

/-- The request for an entity like this one. -/
def Entity.toRequest (entity : Entity) : SpawnRequest :=
  -- Identifier and abilities are left out, which no request can ask for.
  ⟨entity.position, entity.category, entity.word, entity.indicator, entity.properties⟩

namespace World

/-- Creating an entity takes the next identifier, as long as there is one for the entity after. -/
theorem insert_of_room {world : World} (room : world.nextId.toNat + 1 < UInt32.size)
    (spawn : SpawnRequest) :
    ∃ after, world.insert spawn = .ok (⟨world.nextId⟩, after) ∧
      after.nextId.toNat = world.nextId.toNat + 1 := by
  -- With room for one more, adding one does not wrap.
  unfold insert
  rw [dif_pos room]
  refine ⟨_, rfl, ?_⟩
  change (world.nextId + 1).toNat = world.nextId.toNat + 1
  rw [UInt32.toNat_add]
  exact Nat.mod_eq_of_lt room

/-- Otherwise nothing is created. -/
theorem insert_of_full {world : World} (full : ¬world.nextId.toNat + 1 < UInt32.size)
    (spawn : SpawnRequest) : world.insert spawn = .error .sumOverflow := by
  -- The test comes before anything is built.
  unfold insert
  rw [dif_neg full]

/-- A placement outside the grid is refused, and any other one creates the entity. -/
theorem place_eq (world : World) (spawn : SpawnRequest) :
    world.place spawn =
      if world.contains spawn.position then world.insert spawn
      else .error (.outOfBounds spawn.position world.width world.height) := by
  -- The check either fails with its own refusal or does nothing.
  unfold place checkInside
  split <;> rfl

/-- A move outside the grid is refused, whoever it names, and so is one of an entity that is not
live. -/
theorem move_eq (world : World) (id : EntityId) (target : Cell) :
    world.move id target =
      if world.contains target then
        match world.find? id with
        | some entity =>
          .ok (((world.leave id entity.position).enter id target).modify id
            fun moved => { moved with position := target })
        | none => .error (.entityNotFound id)
      else .error (.outOfBounds target world.width world.height) := by
  -- Outside the grid the entity is not even looked for.
  unfold move checkInside
  split
  · cases world.find? id <;> rfl
  · rfl

/-- A placement fails outside the grid, and for want of identifiers. -/
theorem place_eq_error_iff {world : World} {spawn : SpawnRequest} {error : Error} :
    world.place spawn = .error error ↔
      (world.contains spawn.position = false ∧
          error = .outOfBounds spawn.position world.width world.height) ∨
        (world.contains spawn.position = true ∧ UInt32.size ≤ world.nextId.toNat + 1 ∧
          error = .sumOverflow) := by
  -- On the grid only the identifiers can fail.
  rw [place_eq]
  cases world.contains spawn.position with
  | false => simp [eq_comm]
  | true =>
    by_cases room : world.nextId.toNat + 1 < UInt32.size
    · obtain ⟨after, inserted, _⟩ := insert_of_room room spawn
      simp [inserted, Nat.not_le.mpr room]
    · simp [insert_of_full room spawn, Nat.not_lt.mp room, eq_comm]

/-- A move fails outside the grid, and on it exactly if nobody is live under the identifier. -/
theorem move_eq_error_iff {world : World} {id : EntityId} {target : Cell} {error : Error} :
    world.move id target = .error error ↔
      (world.contains target = false ∧ error = .outOfBounds target world.width world.height) ∨
        (world.contains target = true ∧ world.find? id = none ∧ error = .entityNotFound id) := by
  -- The grid is asked first, and the entity second.
  rw [move_eq]
  cases world.contains target with
  | false => simp [eq_comm]
  | true => cases world.find? id <;> simp [eq_comm]

/-- Nobody is taken out who is not live. -/
theorem take?_eq_none_iff {world : World} {id : EntityId} :
    world.take? id = none ↔ world.find? id = none := by
  -- Once the entity is found, nothing can fail.
  unfold take?
  cases world.find? id <;> simp [Bind.bind, Option.bind]

/-- A removal is refused exactly if it names somebody who is not live. -/
theorem remove_eq_error_iff {world : World} {id : EntityId} {error : Error} :
    world.remove id = .error error ↔ world.find? id = none ∧ error = .entityNotFound id := by
  -- The only refusal is for an entity that is not found.
  rw [← take?_eq_none_iff]
  unfold remove
  cases world.take? id <;> simp [eq_comm]

/-- No two live entities have the same identifier. -/
theorem nodup_ids (world : World) : world.ids.Nodup := by
  -- Ascending identifiers are distinct.
  refine List.pairwise_map.mpr (world.ascending.imp fun less same => ?_)
  rw [same] at less
  exact UInt32.lt_irrefl _ less

/-- One entity can be put behind all others. -/
theorem perm_filter_append {world : World} {entity : Entity} (live : entity ∈ world.entities) :
    world.entities.Perm (world.entities.filter (·.id != entity.id) ++ [entity]) := by
  -- Erasing the one entity from the list is filtering by its identifier, which it shares with
  -- nobody.
  have distinct : world.entities.Nodup := .of_map _ world.nodup_ids
  have others : world.entities.erase entity = world.entities.filter (·.id != entity.id) := by
    rw [distinct.erase_eq_filter]
    refine List.filter_congr fun other known => ?_
    rw [Bool.eq_iff_iff, bne_iff_ne, bne_iff_ne]
    exact not_congr ⟨congrArg Entity.id, eq_of_id known live⟩
  rw [← others]
  exact (List.perm_cons_erase live).trans (List.perm_append_singleton ..).symm

/-- Nobody is taken out from under an identifier that is not live, and erasing it changes
nothing. -/
theorem take?_of_not_mem {world : World} {id : EntityId} (missing : id ∉ world.ids) :
    world.take? id = none ∧ world.erase id = world := by
  -- Whoever were found would be live under the identifier.
  have none : world.take? id = none := by
    refine take?_eq_none_iff.mpr (Option.eq_none_iff_forall_ne_some.mpr fun entity found => ?_)
    obtain ⟨live, rfl⟩ := find?_eq_some_iff.mp found
    exact missing (List.mem_map_of_mem live)
  refine ⟨none, ?_⟩
  rw [erase, none]

/-- Taking an entity out leaves the world without it. -/
theorem take?_of_mem {world : World} {id : EntityId} (live : id ∈ world.ids) :
    ∃ entity, world.take? id = some (entity, world.erase id) := by
  -- Somebody is found, and erasing goes by what taking leaves.
  obtain ⟨entity, known, same⟩ := List.mem_map.mp live
  cases taken : world.take? id with
  | none =>
    rw [take?_eq_none_iff, find?_eq_some_iff.mpr ⟨known, same⟩] at taken
    cases taken
  | some pair =>
    refine ⟨pair.1, ?_⟩
    rw [erase, taken]

/-- Erasing leaves every entity but the one. -/
theorem entities_erase (world : World) (id : EntityId) :
    (world.erase id).entities = world.entities.filter (·.id != id) := by
  -- An identifier that is not live filters nobody out.
  by_cases live : id ∈ world.ids
  · obtain ⟨entity, taken⟩ := take?_of_mem live
    exact (take?_eq_some taken).2.2.1
  · rw [(take?_of_not_mem live).2, List.filter_eq_self.mpr]
    intro entity known
    rw [bne_iff_ne]
    rintro rfl
    exact live (List.mem_map_of_mem known)

/-- Erasing takes one identifier away. -/
theorem mem_ids_erase_iff {world : World} {id other : EntityId} :
    other ∈ (world.erase id).ids ↔ other ∈ world.ids ∧ other ≠ id := by
  -- Filtering entities by identifier is filtering identifiers.
  unfold ids
  rw [entities_erase]
  simp only [List.mem_map, List.mem_filter, bne_iff_ne]
  constructor
  · rintro ⟨entity, ⟨live, differs⟩, rfl⟩
    exact ⟨⟨entity, live, rfl⟩, differs⟩
  · rintro ⟨⟨entity, live, rfl⟩, differs⟩
    exact ⟨entity, ⟨live, differs⟩, rfl⟩

/-- Erasing leaves the grid as it is. -/
@[simp] theorem toGrid_erase (world : World) (id : EntityId) :
    (world.erase id).toGrid = world.toGrid := by
  -- Taking an entity out keeps the grid.
  unfold erase
  split
  · exact (take?_eq_some ‹_›).2.1
  · rfl

/-- Erasing several entities leaves the grid as it is. -/
@[simp] theorem toGrid_eraseAll (world : World) (ids : List EntityId) :
    (world.eraseAll ids).toGrid = world.toGrid := by
  -- The entities are erased one after the other.
  unfold eraseAll
  induction ids generalizing world with
  | nil => rfl
  | cons id rest ih => rw [List.foldl_cons, ih, toGrid_erase]

/-- Taking an entity out does not change the next identifier. -/
theorem nextId_of_take? {world after : World} {id : EntityId} {entity : Entity}
    (taken : world.take? id = some (entity, after)) : after.nextId = world.nextId := by
  -- The remaining world is the old one but for its entities and stacks.
  obtain ⟨live, _, taken⟩ := Option.bind_eq_some_iff.mp taken
  cases taken
  rfl

/-- Erasing gives no identifier back. -/
@[simp] theorem nextId_erase (world : World) (id : EntityId) :
    (world.erase id).nextId = world.nextId := by
  -- Either an entity is taken out or nothing is done.
  unfold erase
  split
  · exact nextId_of_take? ‹_›
  · rfl

/-- Nor does erasing several entities. -/
@[simp] theorem nextId_eraseAll (world : World) (ids : List EntityId) :
    (world.eraseAll ids).nextId = world.nextId := by
  -- One entity after the other.
  unfold eraseAll
  induction ids generalizing world with
  | nil => rfl
  | cons id rest ih => rw [List.foldl_cons, ih, nextId_erase]

/-- Erasing several entities leaves all others. -/
theorem entities_eraseAll (world : World) (ids : List EntityId) :
    (world.eraseAll ids).entities =
      world.entities.filter fun entity => !ids.contains entity.id := by
  -- Erasing one by one filters by each identifier in turn.
  unfold eraseAll
  induction ids generalizing world with
  | nil => simp
  | cons id rest ih =>
    rw [List.foldl_cons, ih, entities_erase, List.filter_filter]
    refine List.filter_congr fun entity _ => ?_
    rw [List.contains_cons, Bool.not_or, Bool.and_comm, bne]

/-- Whoever is not erased is live as before. -/
theorem mem_entities_eraseAll_iff {world : World} {ids : List EntityId} {entity : Entity} :
    entity ∈ (world.eraseAll ids).entities ↔ entity ∈ world.entities ∧ entity.id ∉ ids := by
  -- What is left is a filter of what was there.
  simp [entities_eraseAll]

/-- Creating entities leaves the grid and everybody who is live, and adds one entity for each
request. -/
theorem createAll_eq_ok {world after : World} {requests : List SpawnRequest} {ids : List EntityId}
    (created : world.createAll requests = .ok (ids, after)) :
    after.toGrid = world.toGrid ∧ ∃ added, after.entities = world.entities ++ added ∧
      added.map Entity.toRequest = requests ∧ added.map (·.id) = ids := by
  -- The first request is served, and the others find the world that it left.
  induction requests generalizing world ids with
  | nil =>
    cases created
    exact ⟨rfl, [], (List.append_nil _).symm, rfl, rfl⟩
  | cons request rest ih =>
    obtain ⟨⟨id, middle⟩, first, created⟩ := bind_eq_ok_iff.mp created
    obtain ⟨⟨others, last⟩, later, created⟩ := bind_eq_ok_iff.mp created
    cases created
    obtain ⟨_, grid, entities, _⟩ := insert_eq_ok (create_eq_ok first).2
    obtain ⟨grid', added, entities', requested, named⟩ := ih later
    refine ⟨grid'.trans grid, .ofSpawn id request :: added, ?_, ?_, ?_⟩
    · rw [entities', entities, List.append_assoc, List.singleton_append]
    · rw [List.map_cons, requested]
      rfl
    · rw [List.map_cons, named]
      rfl

/-- Creating entities takes nobody away. -/
theorem mem_ids_createAll {world after : World} {requests : List SpawnRequest} {ids : List EntityId}
    (created : world.createAll requests = .ok (ids, after)) {id : EntityId}
    (live : id ∈ world.ids) :
    id ∈ after.ids := by
  -- New entities are appended.
  obtain ⟨_, added, entities, _⟩ := createAll_eq_ok created
  rw [World.ids, entities, List.map_append]
  exact List.mem_append_left _ live

/-- Nothing shows under an identifier when nobody who has it carries a word. -/
theorem tile?_eq_none {world : World} {id : EntityId}
    (hidden : ∀ entity ∈ world.entities, entity.id = id → entity.word = none) :
    world.tile? id = none := by
  -- Either nobody is found, or somebody without a word.
  unfold tile?
  cases found : world.find? id with
  | none => rfl
  | some entity =>
    obtain ⟨live, known⟩ := find?_eq_some_iff.mp found
    rw [Option.bind_some, hidden entity live known]
    rfl

/-- Changing entities in place changes each of them. -/
theorem entities_mapEntities {world : World} {change : Entity → Entity}
    (same : ∀ entity, (change entity).id = entity.id) :
    (world.mapEntities change).entities = world.entities.map change := by
  -- Writing back an identifier that was kept changes nothing.
  unfold mapEntities
  refine List.map_congr_left fun entity _ => ?_
  rw [← same entity]

/-- Changing one entity, which keeps its identifier, changes nobody else. -/
theorem entities_modify {world : World} {id : EntityId} {change : Entity → Entity} :
    (world.modify id change).entities = world.entities.map fun entity =>
      if entity.id = id then { change entity with id := entity.id } else entity := by
  -- Everybody else is mapped to themselves.
  unfold modify mapEntities
  refine List.map_congr_left fun entity _ => ?_
  dsimp only
  split <;> rfl

/-- A change that changes nobody leaves the world as it is. -/
theorem mapEntities_eq_self {world : World} {change : Entity → Entity}
    (fixed : ∀ entity ∈ world.entities, change entity = entity) :
    world.mapEntities change = world := by
  -- The list of entities is the only part that a change touches.
  have same : world.entities.map (fun entity => { change entity with id := entity.id }) =
      world.entities := by
    refine (List.map_congr_left fun entity live => ?_).trans (List.map_id _)
    rw [fixed entity live]
    rfl
  obtain ⟨grid, entities, layers, nextId⟩ := world
  unfold mapEntities
  congr

end World

namespace Outcome

variable {replacements : List Replacement} {world after : World} {ids : List EntityId}

/-- A replacement of a live entity erases it and creates what it asks for. The others follow. -/
theorem replaceAll_cons_of_mem {first : Replacement} (live : first.old ∈ world.ids) :
    replaceAll world (first :: replacements) = (do
      let (created, middle) ← (world.erase first.old).createAll first.spawns
      let (later, after) ← replaceAll middle replacements
      return (created ++ later, after)) := by
  -- Taking the old entity out leaves the world that erasing it leaves.
  obtain ⟨entity, taken⟩ := World.take?_of_mem live
  rw [replaceAll, taken]

/-- A replacement of somebody who is gone is skipped. -/
theorem replaceAll_cons_of_not_mem {first : Replacement} (missing : first.old ∉ world.ids) :
    replaceAll world (first :: replacements) = replaceAll world replacements := by
  -- There is nobody to be taken out.
  rw [replaceAll, (World.take?_of_not_mem missing).1]

/-- The first replacement erases the old entity and creates what it asks for, or nothing if that one
is gone. The others follow. -/
theorem replaceAll_cons_eq_ok {first : Replacement}
    (replaced : replaceAll world (first :: replacements) = .ok (ids, after)) :
    ∃ spawns created middle later, spawns ⊆ first.spawns ∧
      (world.erase first.old).createAll spawns = .ok (created, middle) ∧
        replaceAll middle replacements = .ok (later, after) ∧ ids = created ++ later := by
  -- Where the old entity is gone, erasing it and creating nothing is what happens.
  by_cases live : first.old ∈ world.ids
  · rw [replaceAll_cons_of_mem live] at replaced
    obtain ⟨⟨created, middle⟩, made, replaced⟩ := bind_eq_ok_iff.mp replaced
    obtain ⟨⟨later, last⟩, others, replaced⟩ := bind_eq_ok_iff.mp replaced
    cases replaced
    exact ⟨first.spawns, created, middle, later, fun _ member => member, made, others, rfl⟩
  · rw [replaceAll_cons_of_not_mem live] at replaced
    refine ⟨[], [], world, ids, List.nil_subset _, ?_, replaced, rfl⟩
    rw [(World.take?_of_not_mem live).2]
    rfl

/-- The entities after the first replacement. -/
theorem entities_replace {first : Replacement} {spawns : List SpawnRequest}
    {created : List EntityId}
    {middle : World} (asked : spawns ⊆ first.spawns)
    (made : (world.erase first.old).createAll spawns = .ok (created, middle)) :
    ∃ added, middle.entities = world.entities.filter (·.id != first.old) ++ added ∧
      ∀ entity ∈ added, entity.toRequest ∈ first.spawns := by
  -- Erasing filters, and creating appends.
  obtain ⟨_, added, entities, requested, _⟩ := World.createAll_eq_ok made
  rw [World.entities_erase] at entities
  refine ⟨added, entities, fun entity new => asked ?_⟩
  rw [← requested]
  exact List.mem_map_of_mem new

/-- Whoever is there after replacements was there before and is not replaced, or is new. -/
theorem of_mem_replaceAll (replaced : replaceAll world replacements = .ok (ids, after))
    {entity : Entity} (live : entity ∈ after.entities) :
    (entity ∈ world.entities ∧ ∀ replacement ∈ replacements, entity.id ≠ replacement.old) ∨
      ∃ replacement ∈ replacements, entity.toRequest ∈ replacement.spawns := by
  -- The induction follows the list of replacements.
  induction replacements generalizing world ids with
  | nil =>
    cases replaced
    exact .inl ⟨live, nofun⟩
  | cons first rest ih =>
    obtain ⟨spawns, created, middle, later, asked, made, others, _⟩ :=
      replaceAll_cons_eq_ok replaced
    obtain ⟨added, entities, requested⟩ := entities_replace asked made
    rcases ih others with ⟨known, kept⟩ | ⟨replacement, listed, new⟩
    · rw [entities, List.mem_append, List.mem_filter, bne_iff_ne] at known
      rcases known with ⟨known, differs⟩ | new
      · exact .inl ⟨known, List.forall_mem_cons.mpr ⟨differs, kept⟩⟩
      · exact .inr ⟨first, .head _, requested entity new⟩
    · exact .inr ⟨replacement, .tail _ listed, new⟩

/-- Replacements leave the entities that pass a test as they are if nobody who is replaced passes
it, and nobody who is new. -/
theorem filter_replaceAll {test : Entity → Bool}
    (spared : ∀ replacement ∈ replacements, ∀ entity ∈ world.entities,
      entity.id = replacement.old → test entity = false)
    (alien : ∀ replacement ∈ replacements, ∀ entity : Entity,
      entity.toRequest ∈ replacement.spawns → test entity = false)
    (replaced : replaceAll world replacements = .ok (ids, after)) :
    after.entities.filter test = world.entities.filter test := by
  induction replacements generalizing world ids with
  | nil =>
    cases replaced
    rfl
  | cons first rest ih =>
    obtain ⟨spawns, created, middle, later, asked, made, others, _⟩ :=
      replaceAll_cons_eq_ok replaced
    obtain ⟨added, entities, requested⟩ := entities_replace asked made
    have fails : ∀ entity ∈ added, test entity = false := fun entity new =>
      alien first (.head _) entity (requested entity new)
    have nobody : added.filter test = [] :=
      List.filter_eq_nil_iff.mpr fun entity new => by simp [fails entity new]
    rw [ih ?_ (fun replacement member => alien replacement (.tail _ member)) others, entities,
      List.filter_append, List.filter_filter, nobody, List.append_nil]
    · -- The old entity fails the test, so that taking it out makes no difference.
      refine List.filter_congr fun entity live => ?_
      by_cases same : entity.id = first.old
      · simp [spared first (.head _) entity live same]
      · simp [same]
    · intro replacement member entity live same
      rw [entities, List.mem_append, List.mem_filter] at live
      rcases live with ⟨live, _⟩ | new
      · exact spared replacement (.tail _ member) entity live same
      · exact fails entity new

/-- Replacing entities without words by others without words leaves the board as it is. -/
theorem board_replaceAll
    (hidden : ∀ replacement ∈ replacements, ∀ entity ∈ world.entities,
      entity.id = replacement.old → entity.word = none)
    (wordless : ∀ replacement ∈ replacements, ∀ request ∈ replacement.spawns, request.word = none)
    (replaced : replaceAll world replacements = .ok (ids, after)) : after.board = world.board := by
  -- The first replacement leaves the board alone, and what it leaves still hides nobody.
  induction replacements generalizing world ids with
  | nil =>
    cases replaced
    rfl
  | cons first rest ih =>
    obtain ⟨spawns, created, middle, later, asked, made, others, _⟩ :=
      replaceAll_cons_eq_ok replaced
    obtain ⟨added, entities, requested⟩ := entities_replace asked made
    rw [ih ?_ (fun replacement member => wordless replacement (.tail _ member)) others,
      World.board_createAll (fun request member => wordless first (.head _) request (asked member))
        made, World.board_erase (World.tile?_eq_none (hidden first (.head _)))]
    intro replacement member entity live same
    rw [entities, List.mem_append, List.mem_filter] at live
    rcases live with ⟨live, _⟩ | new
    · exact hidden replacement (.tail _ member) entity live same
    · exact wordless first (.head _) entity.toRequest (requested entity new)

/-- Carrying out an outcome leaves the entities that pass a test as they are if nobody who goes
passes it, and nobody who is new. -/
theorem filter_carryOut {outcome : Outcome} {test : Entity → Bool}
    (removed : ∀ removal ∈ outcome.removals, ∀ entity ∈ world.entities,
      entity.id = removal.id → test entity = false)
    (spared : ∀ replacement ∈ outcome.replacements, ∀ entity ∈ world.entities,
      entity.id = replacement.old → test entity = false)
    (alien : ∀ replacement ∈ outcome.replacements, ∀ entity : Entity,
      entity.toRequest ∈ replacement.spawns → test entity = false)
    (carried : outcome.carryOut world = .ok (ids, after)) :
    after.entities.filter test = world.entities.filter test := by
  -- Removals filter out nobody who passes, and replacements neither take nor add one.
  rw [filter_replaceAll ?_ alien carried, World.entities_eraseAll, List.filter_filter]
  · refine List.filter_congr fun entity live => ?_
    by_cases gone : entity.id ∈ outcome.removals.map (·.id)
    · obtain ⟨removal, member, same⟩ := List.mem_map.mp gone
      simp [removed removal member entity live same.symm]
    · simp [gone]
  · intro replacement member entity live
    exact spared replacement member entity (World.mem_entities_eraseAll_iff.mp live).1

end Outcome

end WordTiles
