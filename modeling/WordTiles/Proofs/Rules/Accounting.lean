import WordTiles.Proofs.Rules.Destroying
import WordTiles.Proofs.Rules.Room
import WordTiles.Proofs.World.Ledger

/-! A tick accounts for every entity: its record lists everybody who goes, once and while live, and
everybody who comes, in the order of their identifiers. -/

namespace WordTiles

/-- Whom an outcome lists as gone: those that are removed, and those that are replaced. -/
def Outcome.gone (outcome : Outcome) : List EntityId :=
  -- Nobody is in both lists, since removal comes first.
  outcome.removals.map (·.id) ++ outcome.replacements.map (·.old)

/-- Whom a record lists as gone: the indicators that were removed, the entities that were removed,
and those that were replaced. -/
def TickRecord.gone (record : TickRecord) : List EntityId :=
  -- The three lists run over all rounds, one after the other.
  record.readings.flatMap (·.indicators.removed) ++ record.removals.map (·.id) ++
    (record.outcomes.flatMap (·.replacements)).map (·.old)

/-- A record accounts for what became of a world: everybody who goes is listed once and nobody else
goes, those who come are listed by the identifiers that they take, one after the other, and whoever
stays is the same but for what the rules grant and keeps the order of every stack. -/
structure TickRecord.Accounts (record : TickRecord) (world left : World) : Prop where
  once : record.gone.Nodup
  live : ∀ id, id ∈ left.ids ↔ (id ∈ world.ids ∨ id ∈ record.spawned) ∧ id ∉ record.gone
  known : ∀ id ∈ record.gone, id ∈ world.ids ∨ id ∈ record.spawned
  numbered : record.spawned.map (·.val.toNat) =
    List.range' world.nextId.toNat record.spawned.length
  nextId : left.nextId.toNat = world.nextId.toNat + record.spawned.length
  kept : ∀ entity ∈ world.entities, ∀ survivor ∈ left.entities, survivor.id = entity.id →
    survivor.position = entity.position ∧ survivor.category = entity.category ∧
      survivor.word = entity.word ∧ survivor.indicator = entity.indicator ∧
        (entity.isGoverned = false → survivor = entity)
  stacked : ∀ cell, (left.stackAt cell).filter (world.ids.contains ·) =
    (world.stackAt cell).filter (left.ids.contains ·)

/-- A round lists as gone only whom it finds: indicators of the world that it reads, and entities of
the world in which these have been brought in line. -/
def Round.ListsLive (round : Round) (world : World) : Prop :=
  -- The world that the rules are applied to lies between the two halves of the round.
  (∀ id ∈ round.reading.indicators.removed, id ∈ world.ids) ∧
    ∃ ids brought, round.reading.carryOut world = .ok (ids, brought) ∧
      ∀ id ∈ round.outcome.gone, id ∈ brought.ids

/-- The rounds of a settling run, each with the world that it found. -/
def Engine.rounds (engine : Engine) (world : World) (elapsed : Duration) :
    Nat → List (World × Round)
  -- The rounds are those that a settling run goes through, failures left out.
  | 0 =>
    match engine.round world elapsed with
    | .error _ => []
    | .ok round => [(world, round)]
  | further + 1 =>
    match engine.round world elapsed with
    | .error _ => []
    | .ok round =>
      (world, round) ::
        if round.outcome.changesWorld then round.engine.rounds round.world .zero further else []

/-- A reading removes different live indicators. -/
theorem RuleReader.removed_of_advance {reader after : RuleReader} {world : World} {config : Config}
    {elapsed : Duration} {reading : Reading}
    (read : reader.advance world config elapsed = .ok (reading, after)) :
    reading.indicators.removed.Nodup ∧ ∀ id ∈ reading.indicators.removed, id ∈ world.ids := by
  cases stale : reader.isStale with
  | false =>
    -- Whoever has not been told of a change touches no indicator.
    obtain ⟨_, _, none⟩ := advance_of_fresh stale read
    rw [none]
    exact ⟨.nil, nofun⟩
  | true =>
    obtain ⟨_, _, _, _, moves⟩ := advance_of_stale stale read
    rw [moves, indicatorMoves_eq]
    constructor
    · exact world.nodup_ids.sublist (List.filter_sublist.map _)
    · intro id member
      obtain ⟨entity, leaving, rfl⟩ := List.mem_map.mp member
      exact List.mem_map_of_mem (List.mem_filter.mp leaving).1

namespace Outcome

/-- Replacing different live entities takes these away, and brings those that are created. -/
theorem becomes_replaceAll {replacements : List Replacement} {world left : World}
    {ids : List EntityId} (reachable : world.Reachable)
    (distinct : (replacements.map (·.old)).Nodup)
    (live : ∀ replacement ∈ replacements, replacement.old ∈ world.ids)
    (replaced : replaceAll world replacements = .ok (ids, left)) :
    world.Becomes (replacements.map (·.old)) ids left := by
  -- By induction on the replacements: the first one leaves the others live.
  induction replacements generalizing world ids with
  | nil =>
    cases replaced
    exact World.becomes_createAll (show left.createAll [] = .ok ([], left) from rfl)
  | cons first rest ih =>
    obtain ⟨spawns, created, middle, later, _, made, others, rfl⟩ := replaceAll_cons_eq_ok replaced
    obtain ⟨apart, distinct⟩ := List.nodup_cons.mp distinct
    obtain ⟨known, alive⟩ := List.forall_mem_cons.mp live
    have erased : world.Becomes [first.old] [] (world.erase first.old) :=
      World.becomes_eraseAll reachable.consistent (List.forall_mem_singleton.mpr known)
        (List.nodup_singleton _)
    have one : world.Becomes [first.old] created middle :=
      erased.trans (World.becomes_createAll made)
    refine one.trans (ih ((reachable.erase first.old).createAll made) distinct ?_ others)
    intro replacement listed
    refine one.mem_ids_iff.mpr ⟨.inl (alive replacement listed), fun gone => apart ?_⟩
    exact List.mem_map.mpr ⟨replacement, listed, List.mem_singleton.mp gone⟩

/-- Applying the rules lists only live entities as gone, and carrying out what they ask for takes
these away. -/
theorem becomes_carryOut {applier after : RuleApplier} {brought equipped left : World}
    {rulebook : Rulebook} {config : Config} {elapsed : Duration} {outcome : Outcome}
    {created : List EntityId} (reachable : brought.Reachable)
    (applied : applier.advance brought rulebook config elapsed = .ok (outcome, after, equipped))
    (carried : outcome.carryOut equipped = .ok (created, left)) :
    brought.Becomes outcome.gone created left ∧ ∀ id ∈ outcome.gone, id ∈ brought.ids := by
  obtain ⟨rfl, removals, replacements, _⟩ := RuleApplier.advance_eq_ok applied
  have equipped := reachable.change (Rulebook.position_equip rulebook)
  -- The removals name different governed entities, and the replacements others that are left.
  have struck : ∀ id ∈ outcome.removals.map (·.id),
      id ∈ (brought.mapEntities rulebook.equip).ids := by
    intro id member
    obtain ⟨removal, listed, rfl⟩ := List.mem_map.mp member
    rw [removals] at listed
    obtain ⟨_, _, entity, live, _, same, _⟩ := World.exists_of_mem_destruction listed
    rw [← same]
    exact List.mem_map_of_mem live
  have once : (outcome.removals.map (·.id)).Nodup := by
    rw [removals]
    exact equipped.consistent.nodup_destruction
  -- Each entity is replaced once, and is left after the removals.
  obtain ⟨distinct, alive⟩ := old_of_replacements (brought.mapEntities rulebook.equip) rulebook
    outcome.removals
  rw [← replacements] at distinct alive
  have removed := World.becomes_eraseAll equipped.consistent struck once
  have replaced : ((brought.mapEntities rulebook.equip).eraseAll
      (outcome.removals.map (·.id))).Becomes (outcome.replacements.map (·.old)) created left :=
    becomes_replaceAll (equipped.eraseAll _) distinct alive carried
  -- Equipping, removing and replacing are three changes, one after the other.
  refine ⟨(brought.becomes_equip rulebook).trans (removed.trans replaced), fun id member => ?_⟩
  rw [← brought.ids_equip rulebook]
  rcases List.mem_append.mp member with first | second
  · exact struck id first
  · obtain ⟨replacement, listed, rfl⟩ := List.mem_map.mp second
    exact ((removed.mem_ids_iff.mp (alive replacement listed)).1).resolve_right List.not_mem_nil

end Outcome

namespace TickRecord

/-- The record of one round lists whom its reading and its outcome list. -/
theorem gone_record (round : Round) :
    round.record.gone = round.reading.indicators.removed ++ round.outcome.gone := by
  -- A single round has one reading and one outcome.
  simp [gone, Outcome.gone, removals, Round.record]

/-- Whoever is listed in the first rounds or in the others is listed in the whole record. -/
theorem gone_append (record later : TickRecord) :
    (record.gone ++ later.gone).Perm (record.append later).gone := by
  -- Every identifier is counted as often on one side as on the other.
  refine List.perm_iff_count.mpr fun id => ?_
  simp only [gone, append, removals, List.flatMap_append, List.map_append, List.count_append]
  omega

end TickRecord

namespace Engine

variable {engine after : Engine} {world left : World} {elapsed : Duration} {record : TickRecord}

/-- A round takes away whom it lists as gone, all of whom are live then, and brings whom it lists as
spawned. -/
theorem round_becomes {round : Round} (reachable : world.Reachable)
    (ran : engine.round world elapsed = .ok round) :
    world.Becomes round.record.gone round.spawned round.world ∧ round.ListsLive world ∧
      round.world.Reachable := by
  obtain ⟨reader, ids, brought, applier, equipped, created, read, carried, applied, replaced,
    spawned, _⟩ := round_eq_steps ran
  obtain ⟨distinct, known⟩ := RuleReader.removed_of_advance read
  -- First the indicators are brought in line.
  have removed := World.becomes_eraseAll reachable.consistent known distinct
  have moved : world.Becomes round.reading.indicators.removed ids brought := by
    have both := removed.trans (World.becomes_createAll carried)
    rwa [List.append_nil, List.nil_append] at both
  have reachable := (reachable.eraseAll _).createAll carried
  -- Then the rules are applied to the world that this leaves.
  obtain ⟨becomes, listed⟩ := Outcome.becomes_carryOut reachable applied replaced
  rw [TickRecord.gone_record, spawned]
  exact ⟨moved.trans becomes, ⟨known, ids, brought, carried, listed⟩,
    Outcome.reachable_of_applied reachable applied replaced⟩

/-- A settling run takes away whom its record lists as gone, and brings whom it lists as spawned. -/
theorem settle_becomes {further : Nat} (reachable : world.Reachable)
    (ran : engine.settle world elapsed further = .ok (record, after, left)) :
    world.Becomes record.gone record.spawned left := by
  -- By induction on the run, each round of which leads to the world of the next.
  induction ran using settle_induction with
  | last first _ => exact (round_becomes reachable first).1
  | changed first _ _ ih =>
    obtain ⟨becomes, _, reachable⟩ := round_becomes reachable first
    exact (becomes.trans (ih reachable)).perm (TickRecord.gone_append _ _)

/-- The rounds of a settling run that is over after its first one. -/
theorem rounds_of_last {round : Round} {further : Nat}
    (first : engine.round world elapsed = .ok round)
    (ends : round.outcome.changesWorld = false ∨ further = 0) :
    engine.rounds world elapsed further = [(world, round)] := by
  -- There is no further round, or the first one gives no reason for it.
  cases further with
  | zero => rw [rounds, first]
  | succ further =>
    have quiet := ends.resolve_right further.succ_ne_zero
    simp [rounds, first, quiet]

/-- The record of a settling run puts together what its rounds report, each of which lists as gone
only whom it finds live. -/
theorem rounds_spec {further : Nat} (reachable : world.Reachable)
    (ran : engine.settle world elapsed further = .ok (record, after, left)) :
    record.readings = (engine.rounds world elapsed further).map (·.2.reading) ∧
      record.outcomes = (engine.rounds world elapsed further).map (·.2.outcome) ∧
      record.spawned = (engine.rounds world elapsed further).flatMap (·.2.spawned) ∧
      ∀ stage ∈ engine.rounds world elapsed further, stage.2.ListsLive stage.1 := by
  -- The first round is put in front of what the others report.
  induction ran using settle_induction with
  | last first ends =>
    rw [rounds_of_last first ends]
    exact ⟨rfl, rfl, (List.append_nil _).symm,
      List.forall_mem_singleton.mpr (round_becomes reachable first).2.1⟩
  | changed first changes _ ih =>
    obtain ⟨_, listed, reachable⟩ := round_becomes reachable first
    obtain ⟨readings, outcomes, spawned, others⟩ := ih reachable
    simp only [rounds, first, changes, if_true]
    refine ⟨?_, ?_, ?_, List.forall_mem_cons.mpr ⟨listed, others⟩⟩
    · -- Each of the three lists is put together in the same way.
      rw [TickRecord.append, readings]
      rfl
    · rw [TickRecord.append, outcomes]
      rfl
    · rw [TickRecord.append, spawned]
      rfl

/-- On a world that a host can bring about, the record of a tick accounts for everybody who goes and
everybody who comes, and each round lists as gone only whom it finds live. -/
theorem tick_accounts (reachable : world.Reachable)
    (ran : engine.tick world elapsed = .ok (record, after, left)) :
    record.Accounts world left ∧
      let stages :=
  -- What the run makes of the world has been shown for settling runs, up to grants.
  engine.rounds world elapsed (engine.config.maxRounds.toNat - 1)
      record.readings = stages.map (·.2.reading) ∧ record.outcomes = stages.map (·.2.outcome) ∧
        record.spawned = stages.flatMap (·.2.spawned) ∧
        ∀ stage ∈ stages, stage.2.ListsLive stage.1 := by
  have becomes := settle_becomes reachable ran
  refine ⟨?_, rounds_spec reachable ran⟩
  exact
    { once := becomes.once
      live := fun id => becomes.mem_ids_iff
      known := becomes.known
      numbered := becomes.numbered
      nextId := becomes.nextId
      kept := fun entity live survivor stays same =>
        Entity.eq_of_bare (becomes.bare_eq live stays same)
      stacked := becomes.filter_stackAt reachable.consistent }

/-- A rock turns into a wall, and the rule gets its indicator. -/
theorem tick_accounts_rockOnRule : ∃ bare ids world record after left,
    World.empty 3 1 = .ok bare ∧ bare.createAll rockOnRule = .ok (ids, world) ∧
      unread.tick world .zero = .ok (record, after, left) ∧ record.gone = [⟨3⟩] ∧
        record.spawned = [⟨4⟩, ⟨5⟩] ∧ left.ids = [⟨0⟩, ⟨1⟩, ⟨2⟩, ⟨4⟩, ⟨5⟩] ∧
          record.Accounts world left := by
  -- The lists are evaluated, and the theorem says what they stand for.
  obtain ⟨bare, ids, world, record, after, left, empty, created, reachable, _, ran, _⟩ :=
    exists_tick_rockOnRule
  have known : (do
      let bare ← World.empty 3 1
      let made ← bare.createAll rockOnRule
      let ran ← unread.tick made.2 .zero
      return (ran.1.gone, ran.1.spawned, ran.2.2.ids) : Except Error _) =
        .ok ([⟨3⟩], [⟨4⟩, ⟨5⟩], [⟨0⟩, ⟨1⟩, ⟨2⟩, ⟨4⟩, ⟨5⟩]) := by
    cbv
  rw [empty] at known
  simp only [Bind.bind, Except.bind, created, ran, Pure.pure, Except.pure, Except.ok.injEq,
    Prod.mk.injEq] at known
  obtain ⟨gone, spawned, live⟩ := known
  exact ⟨bare, ids, world, record, after, left, empty, created, ran, gone, spawned, live,
    (tick_accounts reachable ran).1⟩

end Engine

end WordTiles
