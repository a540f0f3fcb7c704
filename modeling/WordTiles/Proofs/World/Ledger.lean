import WordTiles.Proofs.Rules.Applying

/-! Accounts of a change of a world: who went, who came, and that nobody else is touched but in what
the rules grant. -/

namespace WordTiles

/-- The entity without what it is granted. An indicator is granted nothing. -/
def Entity.bare (entity : Entity) : Entity :=
  -- Nothing that a rulebook grants is left, and nothing else is touched.
  if entity.isGoverned then { entity with properties := ∅, abilities := ∅ } else entity

namespace Entity

variable {entity later : Entity}

@[simp] theorem id_bare (entity : Entity) : entity.bare.id = entity.id := by
  -- Only properties and abilities are dropped.
  unfold bare
  split <;> rfl

@[simp] theorem position_bare (entity : Entity) : entity.bare.position = entity.position := by
  unfold bare
  split <;> rfl

@[simp] theorem category_bare (entity : Entity) : entity.bare.category = entity.category := by
  unfold bare
  split <;> rfl

@[simp] theorem word_bare (entity : Entity) : entity.bare.word = entity.word := by
  unfold bare
  split <;> rfl

@[simp] theorem indicator_bare (entity : Entity) : entity.bare.indicator = entity.indicator := by
  unfold bare
  split <;> rfl

/-- Whatever an entity is granted, it is the same without it. -/
@[simp] theorem bare_equip (rulebook : Rulebook) (entity : Entity) :
    (rulebook.equip entity).bare = entity.bare := by
  -- What equipping writes is dropped again.
  unfold bare
  rw [Rulebook.isGoverned_equip]
  unfold Rulebook.equip
  cases entity.isGoverned <;> rfl

/-- Two entities that differ in what they are granted alone are of the same kind and in the same
place, and if they are granted nothing they are the same. -/
theorem eq_of_bare (same : later.bare = entity.bare) :
    later.position = entity.position ∧ later.category = entity.category ∧
      later.word = entity.word ∧ later.indicator = entity.indicator ∧
        (entity.isGoverned = false → later = entity) := by
  have shows : later.indicator = entity.indicator := by
    rw [← indicator_bare, same, indicator_bare]
  refine ⟨?_, ?_, ?_, shows, fun exempt => ?_⟩
  · rw [← position_bare, same, position_bare]
  · rw [← category_bare, same, category_bare]
  · rw [← word_bare, same, word_bare]
  · -- Neither of the two has anything to lose.
    have exempt' : later.isGoverned = false := by
      rw [isGoverned, shows]
      exact exempt
    unfold bare at same
    rwa [exempt, exempt'] at same

end Entity

namespace World

/-- A world becomes another one when some entities go and others come. Whoever goes was there or has
come, and goes once; those who come take the next identifiers in order, and enter on top of their
stacks; nobody else is touched but in what the rules grant. -/
structure Becomes (world : World) (gone spawned : List EntityId) (left : World) : Prop where
  once : gone.Nodup
  known : ∀ id ∈ gone, id ∈ world.ids ∨ id ∈ spawned
  numbered : spawned.map (·.val.toNat) = List.range' world.nextId.toNat spawned.length
  nextId : left.nextId.toNat = world.nextId.toNat + spawned.length
  changed : ∃ created : List Entity, created.map (·.id) = spawned ∧
    left.entities.map Entity.bare =
      ((world.entities ++ created).map Entity.bare).filter (!gone.contains ·.id) ∧
    left.layers =
      (world.layers ++ created.map fun entity => (entity.position, entity.id)).filter
        (!gone.contains ·.2)

namespace Becomes

variable {world middle left : World} {gone further spawned later : List EntityId}

/-- The identifiers of those who come are not below the next one. -/
theorem le_of_mem_spawned (becomes : world.Becomes gone spawned left) {id : EntityId}
    (new : id ∈ spawned) : world.nextId.toNat ≤ id.val.toNat := by
  -- The numbers of those who come are counted up from the next identifier.
  have counted := List.mem_map_of_mem new (f := (·.val.toNat))
  rw [becomes.numbered] at counted
  exact (List.mem_range'_1.mp counted).1

/-- Nobody who comes was there before. -/
theorem not_mem_ids_of_mem_spawned (becomes : world.Becomes gone spawned left) {id : EntityId}
    (new : id ∈ spawned) : id ∉ world.ids := by
  -- Those who were there are below the next identifier, and those who come are not.
  intro old
  obtain ⟨entity, live, rfl⟩ := List.mem_map.mp old
  have less := UInt32.lt_iff_toNat_lt.mp (world.fresh entity live)
  have least := becomes.le_of_mem_spawned new
  omega

/-- Whoever was there or has come is below the next identifier from then on. -/
theorem lt_nextId (becomes : world.Becomes gone spawned left) {id : EntityId}
    (either : id ∈ world.ids ∨ id ∈ spawned) : id.val.toNat < left.nextId.toNat := by
  -- The next identifier lies behind those that were given out.
  rw [becomes.nextId]
  rcases either with old | new
  · obtain ⟨entity, live, rfl⟩ := List.mem_map.mp old
    have less := UInt32.lt_iff_toNat_lt.mp (world.fresh entity live)
    omega
  · have counted := List.mem_map_of_mem new (f := (·.val.toNat))
    rw [becomes.numbered] at counted
    exact (List.mem_range'_1.mp counted).2

/-- Whoever was there or has come is still there, except for those who went. -/
theorem ids_eq (becomes : world.Becomes gone spawned left) :
    left.ids = (world.ids ++ spawned).filter (!gone.contains ·) := by
  -- Identifiers are kept by dropping grants.
  obtain ⟨created, rfl, entities, _⟩ := becomes.changed
  have named (list : List Entity) : (list.map Entity.bare).map (·.id) = list.map (·.id) := by
    rw [List.map_map]
    exact List.map_congr_left fun entity _ => entity.id_bare
  rw [ids, ← named, entities, ids, ← List.map_append, ← named (world.entities ++ created)]
  exact (List.filter_map (f := Entity.id) (p := (!gone.contains ·))).symm

/-- That is, an identifier is live afterwards under these conditions. -/
theorem mem_ids_iff (becomes : world.Becomes gone spawned left) {id : EntityId} :
    id ∈ left.ids ↔ (id ∈ world.ids ∨ id ∈ spawned) ∧ id ∉ gone := by
  -- Filtering takes away those who went, and nobody else.
  rw [becomes.ids_eq, List.mem_filter, List.mem_append, Bool.not_eq_true', ← Bool.not_eq_true,
    List.contains_iff_mem]

/-- Whoever stays differs in what the rules grant alone. -/
theorem bare_eq (becomes : world.Becomes gone spawned left) {entity survivor : Entity}
    (live : entity ∈ world.entities) (stays : survivor ∈ left.entities)
    (same : survivor.id = entity.id) : survivor.bare = entity.bare := by
  obtain ⟨created, news, entities, _⟩ := becomes.changed
  have kept := List.mem_map_of_mem stays (f := Entity.bare)
  rw [entities] at kept
  obtain ⟨other, either, alike⟩ := List.mem_map.mp (List.mem_filter.mp kept).1
  have name : other.id = entity.id := by
    rw [← same, ← other.id_bare, alike, Entity.id_bare]
  rcases List.mem_append.mp either with old | new
  · rw [← alike, eq_of_id old live name]
  · -- Somebody new has a new identifier.
    refine absurd (List.mem_map_of_mem live (f := Entity.id)) ?_
    rw [← name]
    apply becomes.not_mem_ids_of_mem_spawned
    rw [← news]
    exact List.mem_map_of_mem new

/-- Those who stay keep their order in every stack. -/
theorem filter_stackAt (becomes : world.Becomes gone spawned left) (consistent : world.Consistent)
    (cell : Cell) :
    (left.stackAt cell).filter (world.ids.contains ·) =
      (world.stackAt cell).filter (left.ids.contains ·) := by
  obtain ⟨created, news, _, layers⟩ := becomes.changed
  -- Those who have come were not there before, so they are not among those who stay.
  have arrivals : (((created.map fun entity => (entity.position, entity.id)).filter
      (!gone.contains ·.2)).filter (·.1 == cell)).filter (world.ids.contains ·.2) = [] := by
    refine List.filter_eq_nil_iff.mpr fun entry listed old => ?_
    have listed := (List.mem_filter.mp (List.mem_filter.mp listed).1).1
    obtain ⟨entity, new, rfl⟩ := List.mem_map.mp listed
    refine becomes.not_mem_ids_of_mem_spawned ?_ (List.contains_iff_mem.mp old)
    rw [← news]
    exact List.mem_map_of_mem new
  -- Both sides are the old entries of the cell that are left.
  unfold stackAt
  rw [List.filter_map, List.filter_map, layers]
  refine congrArg (List.map Prod.snd) ?_
  simp only [Function.comp_def, List.filter_append, arrivals, List.append_nil]
  rw [List.filter_filter, List.filter_filter, List.filter_filter]
  refine List.filter_congr fun entry listed => ?_
  obtain ⟨entity, live, same, _⟩ := consistent.mem_layers.mp listed
  have old : entry.2 ∈ world.ids := same ▸ List.mem_map_of_mem live
  -- Whoever was there is left unless they have gone.
  have stays : left.ids.contains entry.2 = !gone.contains entry.2 := by
    rw [Bool.eq_iff_iff, List.contains_iff_mem, becomes.mem_ids_iff, Bool.not_eq_true',
      ← Bool.not_eq_true, List.contains_iff_mem]
    exact and_iff_right (.inl old)
  rw [stays, List.contains_iff_mem.mpr old, Bool.true_and, Bool.and_comm]

/-- The order in which those who went are listed does not matter. -/
theorem perm (becomes : world.Becomes gone spawned left) {other : List EntityId}
    (same : gone.Perm other) : world.Becomes other spawned left := by
  -- Whether somebody went does not depend on the order.
  obtain ⟨created, news, entities, layers⟩ := becomes.changed
  have alike (id : EntityId) : gone.contains id = other.contains id := by
    rw [Bool.eq_iff_iff, List.contains_iff_mem, List.contains_iff_mem, same.mem_iff]
  simp only [alike] at entities layers
  exact ⟨same.nodup_iff.mp becomes.once,
    fun id member => becomes.known id (same.mem_iff.mpr member), becomes.numbered, becomes.nextId, created, news, entities, layers⟩

/-- Taking some away, adding others and taking some away again is the same as adding first, if those
who are added are not among the first who are taken away. -/
theorem filter_append_filter {α : Type} (key : α → EntityId) {first second : List α}
    (apart : ∀ item ∈ second, key item ∉ gone) :
    (first.filter (fun item => !gone.contains (key item)) ++ second).filter
        (fun item => !further.contains (key item)) =
      (first ++ second).filter fun item => !(gone ++ further).contains (key item) := by
  -- The first filter may be applied to those who are added as well, since it spares them all.
  have spared : second.filter (fun item => !gone.contains (key item)) = second := by
    refine List.filter_eq_self.mpr fun item new => ?_
    rw [Bool.not_eq_true', ← Bool.not_eq_true, List.contains_iff_mem]
    exact apart item new
  rw [← spared, ← List.filter_append, List.filter_filter, spared]
  refine List.filter_congr fun item _ => ?_
  rw [List.contains_append, Bool.not_or, Bool.and_comm]

/-- Two changes one after the other are one change. -/
theorem trans (becomes : world.Becomes gone spawned middle)
    (next : middle.Becomes further later left) :
    world.Becomes (gone ++ further) (spawned ++ later) left := by
  -- Whoever comes in the second change has an identifier that nobody had who went in the first.
  have apart (id : EntityId) (new : id ∈ later) : id ∉ gone := by
    intro went
    have less := becomes.lt_nextId (becomes.known id went)
    have least := next.le_of_mem_spawned new
    omega
  obtain ⟨created, rfl, entities, layers⟩ := becomes.changed
  obtain ⟨created', rfl, entities', layers'⟩ := next.changed
  constructor
  · -- Whoever goes in the second change is left from the first or comes in the second.
    refine List.nodup_append.mpr ⟨becomes.once, next.once, ?_⟩
    rintro id first _ second rfl
    rcases next.known id second with old | new
    · exact (becomes.mem_ids_iff.mp old).2 first
    · exact apart id new first
  · intro id member
    rw [List.mem_append]
    rcases List.mem_append.mp member with first | second
    · exact (becomes.known id first).imp_right .inl
    · rcases next.known id second with old | new
      · exact (becomes.mem_ids_iff.mp old).1.imp_right .inl
      · exact .inr (.inr new)
  · rw [List.map_append, becomes.numbered, next.numbered, becomes.nextId, List.length_append,
      List.range'_append_1]
  · rw [next.nextId, becomes.nextId, List.length_append, Nat.add_assoc]
  · refine ⟨created ++ created', List.map_append .., ?_, ?_⟩
    · rw [entities', List.map_append, entities, ← List.append_assoc]
      -- In both lists the first filter passes over those who come later.
      refine (filter_append_filter Entity.id fun entity new => ?_).trans (by rw [← List.map_append])
      obtain ⟨before, listed, rfl⟩ := List.mem_map.mp new
      rw [Entity.id_bare]
      exact apart before.id (List.mem_map_of_mem listed)
    · rw [layers', layers, List.map_append, ← List.append_assoc]
      refine filter_append_filter Prod.snd fun entry new => ?_
      obtain ⟨entity, listed, rfl⟩ := List.mem_map.mp new
      exact apart entity.id (List.mem_map_of_mem listed)

end Becomes

/-- Equipping the entities takes nobody away and brings nobody. -/
theorem becomes_equip (world : World) (rulebook : Rulebook) :
    world.Becomes [] [] (world.mapEntities rulebook.equip) := by
  -- Entities without their grants are the same, and stacks are not touched.
  refine ⟨.nil, nofun, rfl, rfl, [], rfl, ?_, ?_⟩
  · rw [entities_mapEntities rulebook.id_equip, List.map_map, List.append_nil]
    simp [Function.comp_def]
  · simp [mapEntities]

/-- Erasing takes an entity out of the stacks for good. -/
theorem layers_erase {world : World} (consistent : world.Consistent) (id : EntityId) :
    (world.erase id).layers = world.layers.filter (·.2 != id) := by
  unfold erase
  split
  · rename_i entity after taken
    obtain ⟨found, _, _, layers⟩ := take?_eq_some taken
    obtain ⟨live, rfl⟩ := find?_eq_some_iff.mp found
    rw [layers]
    refine List.filter_congr fun entry listed => ?_
    -- The stacks list nobody under a cell but those who stand there.
    obtain ⟨other, known, same, here⟩ := consistent.mem_layers.mp listed
    rw [Bool.eq_iff_iff, bne_iff_ne, bne_iff_ne]
    refine not_congr ⟨congrArg Prod.snd, fun name => ?_⟩
    cases eq_of_id known live (same.trans name)
    exact Prod.ext here.symm name
  · rename_i missing
    refine (List.filter_eq_self.mpr fun entry listed => ?_).symm
    obtain ⟨other, known, same, _⟩ := consistent.mem_layers.mp listed
    rw [bne_iff_ne]
    rintro rfl
    rw [take?_eq_none_iff, find?_eq_some_iff.mpr ⟨known, same⟩] at missing
    cases missing

/-- So does erasing several entities. -/
theorem layers_eraseAll {world : World} (consistent : world.Consistent) (ids : List EntityId) :
    (world.eraseAll ids).layers = world.layers.filter (!ids.contains ·.2) := by
  -- Each erasure filters the arrivals of a world that is still consistent.
  unfold eraseAll
  induction ids generalizing world with
  | nil => simp
  | cons id rest ih =>
    rw [List.foldl_cons, ih (consistent.erase id), layers_erase consistent, List.filter_filter]
    refine List.filter_congr fun entry _ => ?_
    rw [List.contains_cons, Bool.not_or, Bool.and_comm, bne]

/-- Erasing different live entities takes away these. -/
theorem becomes_eraseAll {world : World} (consistent : world.Consistent) {ids : List EntityId}
    (live : ∀ id ∈ ids, id ∈ world.ids) (distinct : ids.Nodup) :
    world.Becomes ids [] (world.eraseAll ids) := by
  -- Nobody comes, and whoever goes was live.
  refine ⟨distinct, fun id member => .inl (live id member), rfl, ?_, [], rfl, ?_, ?_⟩
  · rw [nextId_eraseAll]
    rfl
  · rw [entities_eraseAll, List.append_nil, List.filter_map]
    simp [Function.comp_def]
  · rw [layers_eraseAll consistent, List.map_nil, List.append_nil]

/-- Creating entities, one after the other, brings these. -/
theorem becomes_createAll {world after : World} {requests : List SpawnRequest} {ids : List EntityId}
    (created : world.createAll requests = .ok (ids, after)) : world.Becomes [] ids after := by
  -- By induction on the requests: the first one brings one entity, and the rest come after it.
  induction requests generalizing world ids with
  | nil =>
    cases created
    exact ⟨.nil, nofun, rfl, rfl, [], rfl, by simp, by simp⟩
  | cons request rest ih =>
    obtain ⟨⟨id, middle⟩, first, created⟩ := bind_eq_ok_iff.mp created
    obtain ⟨⟨others, last⟩, further, created⟩ := bind_eq_ok_iff.mp created
    cases created
    have inserted := (create_eq_ok first).2
    -- It has been created, so that there was an identifier left.
    have room : world.nextId.toNat + 1 < UInt32.size := by
      by_contra full
      rw [insert_of_full full] at inserted
      cases inserted
    obtain ⟨other, made, grown⟩ := insert_of_room room request
    obtain ⟨rfl, _, entities, layers⟩ := insert_eq_ok inserted
    rw [inserted] at made
    cases made
    have one : world.Becomes [] [⟨world.nextId⟩] middle := by
      refine ⟨.nil, nofun, rfl, grown, [.ofSpawn ⟨world.nextId⟩ request], rfl, ?_, ?_⟩
      · simp [entities]
      · simp [layers, Entity.ofSpawn]
    exact one.trans (ih further)

end World

end WordTiles
