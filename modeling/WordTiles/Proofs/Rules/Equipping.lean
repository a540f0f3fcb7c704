import Mathlib.Data.List.Perm.Subperm
import Mathlib.Data.List.Permutation
import WordTiles.Proofs.Rules.Applying

/-! What an application of the rules writes: every governed entity comes to carry exactly what its
category is granted, nothing else is touched, and a second application has nothing left to write. -/

namespace WordTiles

/-- The properties and abilities that an entity carries. -/
def Entity.carried (entity : Entity) : Properties × Abilities :=
  -- Both are written together, and compared together.
  (entity.properties, entity.abilities)

namespace Rulebook

variable {rulebook : Rulebook} {entity : Entity}

/-- What an entity of a category is due to carry: nothing if the category has no row. -/
def due (rulebook : Rulebook) (category : Category) : Properties × Abilities :=
  -- A category without a row is due to lose whatever it carries.
  match rulebook.row? category with
  | none => (∅, ∅)
  | some grants => (grants.carriedProperties, grants.abilities)

/-- A category without a row has grants as well, which are none. -/
theorem due_eq (rulebook : Rulebook) (category : Category) : rulebook.due category =
    ((rulebook.grants category).carriedProperties, (rulebook.grants category).abilities) := by
  -- The grants of a missing row are empty.
  unfold due grants
  cases rulebook.row? category <;> rfl

/-- A governed entity comes to carry its due, an indicator stays as it is, and neither changes in
anything else. -/
structure Writes (rulebook : Rulebook) (before after : Entity) : Prop where
  id : after.id = before.id
  position : after.position = before.position
  category : after.category = before.category
  word : after.word = before.word
  indicator : after.indicator = before.indicator
  granted : before.isGoverned = true → after.carried = rulebook.due before.category
  exempt : before.isGoverned = false → after = before

/-- Equipping does this to an entity. -/
theorem writes_equip (rulebook : Rulebook) (entity : Entity) :
    rulebook.Writes entity (rulebook.equip entity) where
  -- All fields but the two that are written are kept.
  id := rulebook.id_equip entity
  position := rulebook.position_equip entity
  category := rulebook.category_equip entity
  word := rulebook.word_equip entity
  indicator := rulebook.indicator_equip entity
  granted := fun governed => by
    obtain ⟨properties, abilities⟩ := rulebook.equip_of_isGoverned governed
    rw [due_eq, Entity.carried, properties, abilities]
  exempt := equip_of_exempt

/-- Equipping alters an entity exactly if it is governed and does not carry its due. -/
theorem equip_ne_iff : rulebook.equip entity ≠ entity ↔
    entity.isGoverned = true ∧ entity.carried ≠ rulebook.due entity.category := by
  have writes := rulebook.writes_equip entity
  cases governed : entity.isGoverned with
  | false => simp [writes.exempt governed]
  | true =>
    rw [← writes.granted governed, and_iff_right rfl, not_iff_not]
    constructor
    · exact fun same => congrArg Entity.carried same.symm
    · -- Equipping writes nothing but what is carried.
      intro same
      obtain ⟨properties, abilities⟩ := Prod.mk.inj same
      unfold equip at properties abilities ⊢
      rw [governed, if_pos rfl] at properties abilities ⊢
      exact congr (congrArg _ properties.symm) abilities.symm

/-- The second world is the first one with the entities written to, one by one. Grid, stacks and the
next identifier are the same. -/
structure Equips (rulebook : Rulebook) (world equipped : World) : Prop where
  toGrid : equipped.toGrid = world.toGrid
  stackAt : ∀ cell, equipped.stackAt cell = world.stackAt cell
  nextId : equipped.nextId = world.nextId
  entities : List.Forall₂ rulebook.Writes world.entities equipped.entities

/-- Equipping its entities does this to a world. -/
theorem equips_mapEntities (rulebook : Rulebook) (world : World) :
    rulebook.Equips world (world.mapEntities rulebook.equip) where
  -- The entities are mapped one by one, and the rest is not touched.
  toGrid := rfl
  stackAt := fun _ => rfl
  nextId := rfl
  entities := by
    rw [World.entities_mapEntities rulebook.id_equip, List.forall₂_map_right_iff]
    exact List.forall₂_same.mpr fun entity _ => rulebook.writes_equip entity

/-- Nothing is left to write to an equipped world. -/
theorem mapEntities_equip_equip (rulebook : Rulebook) (world : World) :
    (world.mapEntities rulebook.equip).mapEntities rulebook.equip =
      world.mapEntities rulebook.equip := by
  -- Each of the entities was equipped before, and equipping it again changes nothing.
  refine World.mapEntities_eq_self fun entity live => ?_
  obtain ⟨before, _, rfl⟩ := mem_entities_equip_iff.mp live
  exact rulebook.equip_equip before

end Rulebook

/-- There are no more live entities than identifiers that have been given out. -/
theorem World.length_entities_le (world : World) :
    world.entities.length ≤ world.nextId.toNat := by
  -- The identifiers are different numbers below the next one.
  have distinct : (world.ids.map (·.val.toNat)).Nodup :=
    world.nodup_ids.map fun a b same => congrArg EntityId.mk (UInt32.toNat_inj.mp same)
  have below : world.ids.map (·.val.toNat) ⊆ List.range world.nextId.toNat := by
    intro number listed
    obtain ⟨id, member, rfl⟩ := List.mem_map.mp listed
    obtain ⟨entity, live, rfl⟩ := List.mem_map.mp member
    exact List.mem_range.mpr (UInt32.lt_iff_toNat_lt.mp (world.fresh entity live))
  have counted := (List.subperm_of_subset distinct below).length_le
  rwa [List.length_map, ids, List.length_map, List.length_range] at counted

namespace RuleApplier

variable {applier : RuleApplier} {elapsed clock : Duration}

/-- The number of entities that are reported as equipped is that of the governed ones that did not
carry their due. -/
theorem equipped_outcomeOf (world : World) (rulebook : Rulebook) (config : Config)
    (time : Duration) : (outcomeOf world rulebook config time).1.stats.equipped.toNat =
      world.entities.countP fun entity =>
        entity.isGoverned && entity.carried != rulebook.due entity.category := by
  have altered (entity : Entity) : (rulebook.equip entity != entity) =
      (entity.isGoverned && entity.carried != rulebook.due entity.category) := by
    rw [Bool.eq_iff_iff, Bool.and_eq_true, bne_iff_ne, bne_iff_ne]
    exact Rulebook.equip_ne_iff
  -- No list of live entities is too long to be counted.
  have small : (world.entities.filter fun entity => rulebook.equip entity != entity).length <
      UInt64.size := by
    have kept := world.entities.length_filter_le fun entity => rulebook.equip entity != entity
    have all := world.length_entities_le
    have numbers := world.nextId.toNat_lt
    have wide : 2 ^ 32 < UInt64.size := by decide
    omega
  change (UInt64.ofNat _).toNat = _
  rw [UInt64.toNat_ofNat_of_lt' small, ← List.countP_eq_length_filter]
  exact List.countP_congr fun entity _ => by rw [altered]

/-- Applied to the world that they have just been applied to, and whose entities they have equipped,
the rules ask for the same again and equip nobody. -/
theorem outcomeOf_again (world : World) (rulebook : Rulebook) (config : Config)
    (time later : Duration) :
    let outcome :=
  -- Only the number of the entities equipped looks at what they carry.
  (outcomeOf world rulebook config time).1
    outcomeOf (world.mapEntities rulebook.equip) rulebook config later =
      ({ outcome with stats := { outcome.stats with equipped := 0 }, time := later },
        world.mapEntities rulebook.equip) := by
  have nobody : (world.mapEntities rulebook.equip).entities.filter
      (fun entity => rulebook.equip entity != entity) = [] := by
    refine List.filter_eq_nil_iff.mpr fun entity live => ?_
    obtain ⟨before, _, rfl⟩ := Rulebook.mem_entities_equip_iff.mp live
    simp
  unfold outcomeOf
  dsimp only
  rw [rulebook.mapEntities_equip_equip, nobody]
  rfl

/-- What an application of the rules writes is exact, and writing it again changes nothing. On
whatever world, every governed entity comes to carry its due, nothing else is touched, and those who
did not carry their due are counted. A further application that the clock of an applier has room for
equips nobody, leaves the world as it is, and reports and asks for the same but for that count and
the time. -/
theorem advance_equips (world : World) (rulebook : Rulebook) (config : Config)
    (room : applier.clock.add elapsed = .ok clock) :
    ∃ outcome later equipped,
      applier.advance world rulebook config elapsed = .ok (outcome, later, equipped) ∧
      rulebook.Equips world equipped ∧
      outcome.stats.equipped.toNat = world.entities.countP (fun entity =>
        entity.isGoverned && entity.carried != rulebook.due entity.category) ∧
      ∀ (applier' : RuleApplier) (elapsed' clock' : Duration),
        applier'.clock.add elapsed' = .ok clock' → ∃ later',
          applier'.advance equipped rulebook config elapsed' =
            .ok ({ outcome with stats := { outcome.stats with equipped := 0 }, time := clock' },
              later', equipped) := by
  -- The clock is the one thing that can fail, and there is room for it.
  refine ⟨_, _, _, bind_eq_ok_iff.mpr ⟨clock, room, rfl⟩, rulebook.equips_mapEntities world,
    equipped_outcomeOf world rulebook config clock, ?_⟩
  intro applier' elapsed' clock' room'
  refine ⟨⟨applier'.updateCount + 1, clock'⟩, bind_eq_ok_iff.mpr ⟨clock', room', ?_⟩⟩
  dsimp only
  rw [outcomeOf_again world rulebook config clock clock']
  rfl

/-- Water comes to sink and a rock loses a grant that it no longer has, while another rock and an
indicator stay as they are. The rock by the water is to drown, when the rules are applied again as
well. -/
theorem advance_equips_stale : ∃ bare ids world outcome later equipped later',
    World.empty 2 1 = .ok bare ∧
    bare.createAll [.object .water ⟨0, 0⟩,
      { SpawnRequest.object .rock ⟨0, 0⟩ with properties := .push }, .object .rock ⟨1, 0⟩,
      .overlay ⟨.rock, .wall⟩ ⟨1, 0⟩] = .ok (ids, world) ∧
    initial.advance world (.ofStatements [(.water, .property .sink)]) .standard .zero =
      .ok (outcome, later, equipped) ∧
    outcome.stats.equipped.toNat = 2 ∧
    outcome.removals = [⟨⟨1⟩, .drowned⟩, ⟨⟨0⟩, .spent⟩] ∧
    (Rulebook.ofStatements [(.water, .property .sink)]).Equips world equipped ∧
    initial.advance equipped (.ofStatements [(.water, .property .sink)]) .standard .zero =
      .ok ({ outcome with stats := { outcome.stats with equipped := 0 }, time := .zero }, later',
        equipped) := by
  -- Evaluated in one piece, so that the world is built only once.
  have known : (do
      let bare ← World.empty 2 1
      let built ← bare.createAll [.object .water ⟨0, 0⟩,
        { SpawnRequest.object .rock ⟨0, 0⟩ with properties := .push }, .object .rock ⟨1, 0⟩,
        .overlay ⟨.rock, .wall⟩ ⟨1, 0⟩]
      let applied ← initial.advance built.2 (.ofStatements [(.water, .property .sink)])
        .standard .zero
      return (applied.1.stats.equipped.toNat, applied.1.removals) : Except Error _) =
        .ok (2, [⟨⟨1⟩, .drowned⟩, ⟨⟨0⟩, .spent⟩]) := by
    cbv
  obtain ⟨bare, built, known⟩ := bind_eq_ok_iff.mp known
  obtain ⟨⟨ids, world⟩, created, known⟩ := bind_eq_ok_iff.mp known
  obtain ⟨⟨outcome, later, equipped⟩, applied, known⟩ := bind_eq_ok_iff.mp known
  obtain ⟨count, removals⟩ := Prod.mk.inj (Except.ok.inj known)
  have room : initial.clock.add .zero = .ok .zero := by cbv
  obtain ⟨_, _, _, same, equips, _, again⟩ :=
    advance_equips world (.ofStatements [(.water, .property .sink)]) .standard room
  cases applied.symm.trans same
  obtain ⟨later', repeated⟩ := again initial .zero .zero room
  exact ⟨bare, ids, world, outcome, later, equipped, later', built, created, applied, count,
    removals, equips, repeated⟩

end RuleApplier

end WordTiles
