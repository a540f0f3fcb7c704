import Mathlib.Algebra.GroupWithZero.Nat
import WordTiles.Proofs.Rules.Resting
import WordTiles.Proofs.Rules.Totality

/-! How many entities a round and a settling run create: both succeed while the clocks run and there
are identifiers for so many. -/

namespace WordTiles

namespace World

/-- Entities can be created on cells of the grid while there are identifiers for all of them, and
each takes one. -/
theorem createAll_of_room {world : World} {requests : List SpawnRequest}
    (inside : ∀ request ∈ requests, world.contains request.position = true)
    (room : world.nextId.toNat + requests.length < UInt32.size) :
    ∃ ids after, world.createAll requests = .ok (ids, after) ∧
      after.nextId.toNat = world.nextId.toNat + requests.length := by
  -- By induction on the requests, each of which takes the next identifier from the rest.
  induction requests generalizing world with
  | nil => exact ⟨[], world, rfl, rfl⟩
  | cons first rest ih =>
    obtain ⟨here, further⟩ := List.forall_mem_cons.mp inside
    rw [List.length_cons] at room
    have one : world.nextId.toNat + 1 < UInt32.size := by omega
    obtain ⟨next, inserted, grown⟩ := insert_of_room one first
    obtain ⟨_, grid, _⟩ := insert_eq_ok inserted
    rw [← grid] at further
    obtain ⟨ids, after, created, last⟩ := ih further (by omega)
    refine ⟨⟨world.nextId⟩ :: ids, after, ?_, by rw [last, grown, List.length_cons]; omega⟩
    rw [createAll, create, if_pos here, inserted]
    simp only [Bind.bind, Except.bind, created]
    rfl

end World

namespace Outcome

/-- The number of entities that replacements create. -/
def created (replacements : List Replacement) : Nat :=
  -- Replacements of entities that are gone count as well.
  (replacements.map (·.spawns.length)).sum

@[simp] theorem created_cons (first : Replacement) (rest : List Replacement) :
    created (first :: rest) = first.spawns.length + created rest := rfl

/-- Replacements of different live entities can be carried out while there are identifiers for all
that they ask for, and each of these takes one. -/
theorem replaceAll_of_room {replacements : List Replacement} {world : World}
    (live : ∀ replacement ∈ replacements, replacement.old ∈ world.ids)
    (distinct : (replacements.map (·.old)).Nodup)
    (inside : ∀ replacement ∈ replacements, ∀ request ∈ replacement.spawns,
      world.contains request.position = true)
    (room : world.nextId.toNat + created replacements < UInt32.size) :
    ∃ ids after, replaceAll world replacements = .ok (ids, after) ∧
      after.nextId.toNat = world.nextId.toNat + created replacements := by
  induction replacements generalizing world with
  | nil => exact ⟨[], world, rfl, rfl⟩
  | cons first rest ih =>
    rw [created_cons] at room
    obtain ⟨known, alive⟩ := List.forall_mem_cons.mp live
    obtain ⟨here, further⟩ := List.forall_mem_cons.mp inside
    obtain ⟨apart, distinct⟩ := List.nodup_cons.mp distinct
    -- The first old entity makes way for what replaces it, and the others stay.
    have here' : ∀ request ∈ first.spawns,
        (world.erase first.old).contains request.position = true := by
      rwa [World.toGrid_erase]
    obtain ⟨ids, middle, made, grown⟩ :=
      World.createAll_of_room here' (by rw [World.nextId_erase]; omega)
    have grid := (World.createAll_eq_ok made).1
    rw [World.toGrid_erase] at grid
    rw [World.nextId_erase] at grown
    -- The others have old entities of their own.
    have stay : ∀ replacement ∈ rest, replacement.old ∈ middle.ids := by
      intro replacement listed
      refine World.mem_ids_createAll made (World.mem_ids_erase_iff.mpr ⟨alive _ listed, ?_⟩)
      exact fun same => apart (List.mem_map.mpr ⟨replacement, listed, same⟩)
    rw [← grid] at further
    obtain ⟨later, after, others, last⟩ := ih stay distinct further (by rw [grown]; omega)
    refine ⟨ids ++ later, after, ?_, ?_⟩
    · rw [replaceAll_cons_of_mem known]
      simp only [made, others, Bind.bind, Except.bind]
      rfl
    · rw [last, grown, created_cons]
      omega

/-- The replacements that rules ask for are of different entities, none of which is removed. -/
theorem old_of_replacements (world : World) (rulebook : Rulebook) (removals : List Removal) :
    ((world.replacements rulebook removals).map (·.old)).Nodup ∧
      ∀ replacement ∈ world.replacements rulebook removals,
        replacement.old ∈ (world.eraseAll (removals.map (·.id))).ids := by
  constructor
  · -- They are listed as the entities are.
    rw [World.replacements_eq, List.map_map]
    exact world.nodup_ids.sublist ((List.filter_sublist.trans List.filter_sublist).map _)
  · intro replacement member
    obtain ⟨entity, stands, _, rfl⟩ := World.mem_replacements_iff.mp member
    refine List.mem_map_of_mem (World.mem_entities_eraseAll_iff.mpr ⟨stands.1, fun removed => ?_⟩)
    obtain ⟨removal, named, same⟩ := List.mem_map.mp removed
    exact stands.ne named same

/-- What the rules ask for on a consistent world can be carried out while there are identifiers. -/
theorem carryOut_of_room {world equipped : World} {applier after : RuleApplier} {elapsed : Duration}
    {rulebook : Rulebook} {config : Config} {outcome : Outcome} (consistent : world.Consistent)
    (applied : applier.advance world rulebook config elapsed = .ok (outcome, after, equipped))
    (room : world.nextId.toNat + created outcome.replacements < UInt32.size) :
    ∃ ids left, outcome.carryOut equipped = .ok (ids, left) ∧
      left.nextId.toNat = world.nextId.toNat + created outcome.replacements := by
  -- Neither equipping nor erasing touches the identifiers.
  obtain ⟨rfl, _, replacements, _⟩ := RuleApplier.advance_eq_ok applied
  have same : ((world.mapEntities rulebook.equip).eraseAll
      (outcome.removals.map (·.id))).nextId = world.nextId := World.nextId_eraseAll _ _
  obtain ⟨distinct, live⟩ := old_of_replacements (world.mapEntities rulebook.equip) rulebook
    outcome.removals
  rw [← replacements] at distinct live
  rw [← same] at room ⊢
  refine replaceAll_of_room live distinct ?_ room
  rw [replacements, World.toGrid_eraseAll]
  exact Engine.contains_of_replacements consistent rulebook outcome.removals

end Outcome

/-- The clock of a reader runs with every update, and whatever the reader finds passes its check. -/
theorem RuleReader.clock_of_advance {reader after : RuleReader} {world : World} {config : Config}
    {elapsed : Duration} {reading : Reading}
    (read : reader.advance world config elapsed = .ok (reading, after)) :
    reader.clock.add elapsed = .ok after.clock ∧
      (reader.findings.check = .ok () → after.findings.check = .ok ()) := by
  -- A fresh reader keeps its findings, and a stale one has just checked the new ones.
  obtain ⟨clock, passed, read⟩ := bind_eq_ok_iff.mp read
  split at read
  · cases read
    exact ⟨passed, id⟩
  · obtain ⟨_, _, read⟩ := bind_eq_ok_iff.mp read
    obtain ⟨_, checked, read⟩ := bind_eq_ok_iff.mp read
    obtain ⟨_, _, read⟩ := bind_eq_ok_iff.mp read
    cases read
    exact ⟨passed, fun _ => checked⟩

namespace Engine

variable {engine middle after : Engine} {world around left : World} {elapsed : Duration}

/-- What takes an engine and its world further: time passes on both clocks, and so many entities are
created. -/
structure Leads (engine : Engine) (world : World) (elapsed : Duration) (creates : Nat)
    (after : Engine) (left : World) : Prop where
  reachable : left.Reachable
  nextId : left.nextId.toNat = world.nextId.toNat + creates
  checked : engine.reader.findings.check = .ok () → after.reader.findings.check = .ok ()
  reading : engine.reader.clock.add elapsed = .ok after.reader.clock
  applying : engine.applier.clock.add elapsed = .ok after.applier.clock

/-- Whatever follows at once takes them still further. -/
theorem Leads.trans {creates further : Nat}
    (leads : engine.Leads world elapsed creates middle around)
    (later : middle.Leads around .zero further after left) :
    engine.Leads world elapsed (creates + further) after left := by
  -- No time passes in what follows, so that the clocks are those of the first part.
  have reading := later.reading
  have applying := later.applying
  rw [Duration.add_zero] at reading applying
  refine ⟨later.reachable, ?_, later.checked ∘ leads.checked, leads.reading.trans reading,
    leads.applying.trans applying⟩
  rw [later.nextId, leads.nextId, Nat.add_assoc]

/-- The number of entities that a round creates, or would have to create. -/
def roundCreates (engine : Engine) (world : World) (elapsed : Duration) : Nat :=
  -- A step that fails counts what it asked for, since it may have failed for want of it.
  match engine.reader.advance world engine.config elapsed with
  | .error _ => 0
  | .ok (reading, reader) =>
    reading.indicators.added.length +
      match reading.carryOut world with
      | .error _ => 0
      | .ok (_, brought) =>
        match engine.applier.advance brought reader.rulebook engine.config elapsed with
        | .error _ => 0
        | .ok (outcome, _) => Outcome.created outcome.replacements

/-- A round succeeds on a world that a host can bring about, while the clocks run and there are
identifiers for what it creates. -/
theorem round_of_room (reachable : world.Reachable)
    (reads : ∃ clock, engine.reader.clock.add elapsed = .ok clock)
    (applies : ∃ clock, engine.applier.clock.add elapsed = .ok clock)
    (room : world.nextId.toNat + engine.roundCreates world elapsed < UInt32.size) :
    ∃ round, engine.round world elapsed = .ok round ∧
      engine.Leads world elapsed (engine.roundCreates world elapsed) round.engine round.world := by
  have consistent := reachable.consistent
  obtain ⟨readTime, reads⟩ := reads
  obtain ⟨⟨reading, reader⟩, read⟩ :=
    (engine.reader.advance_total consistent engine.config elapsed).resolve_right
      (by rw [reads]; exact nofun)
  -- The indicators that the reading asks for have room.
  have asked := contains_of_reading consistent read
  rw [← World.toGrid_eraseAll world reading.indicators.removed] at asked
  have same := world.nextId_eraseAll reading.indicators.removed
  unfold roundCreates at room ⊢
  simp only [read] at room ⊢
  obtain ⟨ids, brought, made, grown⟩ := World.createAll_of_room asked (by rw [same]; omega)
  rw [same] at grown
  have carried : reading.carryOut world = .ok (ids, brought) := made
  have reachable := (reachable.eraseAll _).createAll made
  -- So have the replacements that the rules ask for.
  obtain ⟨applyTime, applies⟩ := applies
  obtain ⟨outcome, applier, equipped, applied, rfl⟩ :=
    RuleApplier.exists_advance applies brought reader.rulebook engine.config
  simp only [carried, applied] at room ⊢
  obtain ⟨created, left, replaced, last⟩ :=
    Outcome.carryOut_of_room reachable.consistent applied (by rw [grown]; omega)
  obtain ⟨reads, checked⟩ := RuleReader.clock_of_advance read
  have grows : left.nextId.toNat = world.nextId.toNat +
      (reading.indicators.added.length + Outcome.created outcome.replacements) := by
    rw [last, grown, Nat.add_assoc]
  exact ⟨_, round_of_steps read carried applied replaced,
    Outcome.reachable_of_applied reachable applied replaced, grows, checked, reads, applies⟩

/-- The number of entities that a settling run creates, or would have to create. -/
def settleCreates (engine : Engine) (world : World) (elapsed : Duration) : Nat → Nat
  -- A round that fails ends the run, and one that changes nothing does too.
  | 0 => engine.roundCreates world elapsed
  | further + 1 =>
    engine.roundCreates world elapsed +
      match engine.round world elapsed with
      | .error _ => 0
      | .ok round =>
        if round.outcome.changesWorld then
          round.engine.settleCreates round.world .zero further
        else 0

/-- A settling run succeeds on such a world as well. -/
theorem settle_of_room {further : Nat} (reachable : world.Reachable)
    (reads : ∃ clock, engine.reader.clock.add elapsed = .ok clock)
    (applies : ∃ clock, engine.applier.clock.add elapsed = .ok clock)
    (room : world.nextId.toNat + engine.settleCreates world elapsed further < UInt32.size) :
    ∃ record after left, engine.settle world elapsed further = .ok (record, after, left) ∧
      engine.Leads world elapsed (engine.settleCreates world elapsed further) after left := by
  -- By induction on the further rounds, with the identifiers that the first round leaves to them.
  induction further generalizing engine world elapsed with
  | zero =>
    obtain ⟨round, ran, leads⟩ := round_of_room reachable reads applies room
    exact ⟨round.record, _, _, settle_of_last ran (.inr rfl), leads⟩
  | succ further ih =>
    rw [settleCreates] at room ⊢
    obtain ⟨round, ran, leads⟩ := round_of_room reachable reads applies (by omega)
    simp only [ran] at room ⊢
    cases changed : round.outcome.changesWorld with
    | false => exact ⟨round.record, _, _, settle_of_last ran (.inl changed), leads⟩
    | true =>
      -- No time passes in the further rounds, so the clocks run.
      rw [changed, if_pos rfl] at room
      rw [if_pos rfl]
      have left : round.world.nextId.toNat +
          round.engine.settleCreates round.world .zero further < UInt32.size := by
        rw [leads.nextId]
        omega
      obtain ⟨record, after, last, later, further⟩ := ih leads.reachable
        ⟨_, round.engine.reader.clock.add_zero⟩ ⟨_, round.engine.applier.clock.add_zero⟩ left
      exact ⟨round.record.append record, after, last, settle_of_changed ran changed later,
        leads.trans further⟩

end Engine

end WordTiles
