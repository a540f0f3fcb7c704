import WordTiles.Proofs.Rules.Pausing
import WordTiles.Proofs.Rules.Room

/-! Records of ticks: how many rounds a tick takes, which of them read the words and change the
world, and what the clocks show in the meantime. -/

namespace WordTiles

/-- A report carries the time of the clock, and tells whether the reader was stale. The reader is
fresh then. -/
theorem RuleReader.report_of_advance {reader after : RuleReader} {world : World} {config : Config}
    {elapsed : Duration} {reading : Reading}
    (read : reader.advance world config elapsed = .ok (reading, after)) :
    reading.reread = reader.isStale ∧ reading.time = after.clock ∧ after.isStale = false := by
  cases stale : reader.isStale with
  | false =>
    obtain ⟨same, reported⟩ := advance_eq_of_fresh stale read
    rw [reported, same]
    exact ⟨rfl, rfl, stale⟩
  | true =>
    obtain ⟨findings, _, _, same, reported⟩ := advance_eq_of_stale stale read
    refine ⟨(readingOf_eq_ok reported).1, ?_, by rw [same]⟩
    -- With a new phrase or without one, only its cell can be missing.
    unfold readingOf at reported
    dsimp only at reported
    split at reported
    all_goals
      obtain ⟨cell, _, reported⟩ := bind_eq_ok_iff.mp reported
      cases reported
      rfl

/-- The clock of an applier runs with every update, and the outcome carries its time. -/
theorem RuleApplier.clock_of_advance {applier after : RuleApplier} {world equipped : World}
    {rulebook : Rulebook} {config : Config} {elapsed : Duration} {outcome : Outcome}
    (applied : applier.advance world rulebook config elapsed = .ok (outcome, after, equipped)) :
    applier.clock.add elapsed = .ok after.clock ∧ outcome.time = after.clock := by
  -- The clock is all that an update can fail for, and the outcome is stamped with it.
  obtain ⟨clock, passed, applied⟩ := bind_eq_ok_iff.mp applied
  cases applied
  exact ⟨passed, rfl⟩

/-- What one round tells of the engine that goes through it. -/
structure Round.Follows (round : Round) (engine : Engine) (elapsed : Duration) : Prop where
  /-- The words are read exactly if they must be. -/
  reread : round.reading.reread = engine.reader.isStale
  /-- They must be read again exactly if the round changes the world. -/
  stale : round.engine.reader.isStale = round.outcome.changesWorld
  readClock : engine.reader.clock.add elapsed = .ok round.engine.reader.clock
  applyClock : engine.applier.clock.add elapsed = .ok round.engine.applier.clock
  readAt : round.reading.time = round.engine.reader.clock
  appliedAt : round.outcome.time = round.engine.applier.clock

/-- Every round that succeeds does so. -/
theorem Engine.follows_of_round {engine : Engine} {world : World} {elapsed : Duration}
    {round : Round} (ran : engine.round world elapsed = .ok round) :
    round.Follows engine elapsed := by
  -- The reader and the applier of a round are those of its two steps, marked stale at its end.
  obtain ⟨reader, _, _, applier, _, _, read, _, applied, _, _, left⟩ := round_eq_steps ran
  obtain ⟨reread, readAt, fresh⟩ := RuleReader.report_of_advance read
  obtain ⟨applyClock, appliedAt⟩ := RuleApplier.clock_of_advance applied
  have readClock := (RuleReader.clock_of_advance read).1
  have stale : round.engine.reader.isStale = round.outcome.changesWorld := by
    rw [left, fresh, Bool.false_or]
  have readSame : round.engine.reader.clock = reader.clock := by rw [left]
  have applySame : round.engine.applier.clock = applier.clock := by rw [left]
  rw [← readSame] at readClock readAt
  rw [← applySame] at applyClock appliedAt
  exact ⟨reread, stale, readClock, applyClock, readAt, appliedAt⟩

namespace TickRecord

/-- The record of a run from one engine to another, in which so much time passes. -/
structure Spans (record : TickRecord) (engine after : Engine) (elapsed : Duration) : Prop where
  /-- There is one outcome for each reading. -/
  outcomes : record.outcomes.length = record.readings.length
  /-- Every outcome but the last changes the world. -/
  changes : ∀ outcome ∈ record.outcomes.dropLast, outcome.changesWorld = true
  /-- The run is capped exactly if the last one changes the world as well, -/
  last : record.outcomes.getLast?.map (·.changesWorld) = some record.capped
  /-- and exactly if the words must be read again. -/
  stale : after.reader.isStale = record.capped
  /-- The first round reads the words exactly if it must, -/
  first : record.readings.head?.map (·.reread) = some engine.reader.isStale
  /-- and every later one does. -/
  later : ∀ reading ∈ record.readings.tail, reading.reread = true
  readClock : after.reader.clock.nanoseconds =
    engine.reader.clock.nanoseconds + elapsed.nanoseconds
  applyClock : after.applier.clock.nanoseconds =
    engine.applier.clock.nanoseconds + elapsed.nanoseconds
  readAt : ∀ reading ∈ record.readings, reading.time = after.reader.clock
  appliedAt : ∀ outcome ∈ record.outcomes, outcome.time = after.applier.clock

variable {engine after : Engine} {elapsed : Duration} {round : Round}

/-- The record of one round spans that round. -/
theorem Spans.of_last (follows : round.Follows engine elapsed) :
    round.record.Spans engine round.engine elapsed where
  -- Each list holds one element, which is what the round tells.
  outcomes := rfl
  changes := nofun
  last := rfl
  stale := follows.stale
  first := congrArg some follows.reread
  later := nofun
  readClock := Duration.add_eq_ok_iff.mp follows.readClock
  applyClock := Duration.add_eq_ok_iff.mp follows.applyClock
  readAt := List.forall_mem_singleton.mpr follows.readAt
  appliedAt := List.forall_mem_singleton.mpr follows.appliedAt

/-- No time passes after a round that changes the world, so that a record that spans what follows
spans the whole run once the round is put in front. -/
theorem Spans.of_changed {rest : TickRecord} (follows : round.Follows engine elapsed)
    (changed : round.outcome.changesWorld = true) (spans : rest.Spans round.engine after .zero) :
    (round.record.append rest).Spans engine after elapsed := by
  have readSame : round.engine.reader.clock = after.reader.clock :=
    Except.ok.inj ((Duration.add_zero _).symm.trans (Duration.add_eq_ok_iff.mpr spans.readClock))
  have applySame : round.engine.applier.clock = after.applier.clock :=
    Except.ok.inj ((Duration.add_zero _).symm.trans (Duration.add_eq_ok_iff.mpr spans.applyClock))
  have readClock := Duration.add_eq_ok_iff.mp follows.readClock
  have applyClock := Duration.add_eq_ok_iff.mp follows.applyClock
  obtain ⟨rounds, capped, readings, outcomes, spawned⟩ := rest
  -- What follows has a first reading and a last outcome.
  cases readings with
  | nil => cases spans.first
  | cons reading readings =>
    cases outcomes with
    | nil => cases spans.last
    | cons outcome outcomes =>
      -- The round has left the reader stale, so the next one reads.
      have next : reading.reread = true := by
        rw [← changed, ← follows.stale]
        exact Option.some.inj spans.first
      exact {
        outcomes := congrArg (· + 1) spans.outcomes
        changes := List.forall_mem_cons.mpr ⟨changed, spans.changes⟩
        last := spans.last
        stale := spans.stale
        first := congrArg some follows.reread
        later := List.forall_mem_cons.mpr ⟨next, spans.later⟩
        readClock := readSame ▸ readClock
        applyClock := applySame ▸ applyClock
        readAt := List.forall_mem_cons.mpr ⟨follows.readAt.trans readSame, spans.readAt⟩
        appliedAt := List.forall_mem_cons.mpr ⟨follows.appliedAt.trans applySame, spans.appliedAt⟩ }

end TickRecord

namespace Engine

variable {engine after : Engine} {world left : World} {elapsed : Duration} {record : TickRecord}

/-- The record of a settling run spans the run. -/
theorem spans_of_settle {further : Nat}
    (ran : engine.settle world elapsed further = .ok (record, after, left)) :
    record.Spans engine after elapsed := by
  -- By induction on the run: its last round, or a round that changes the world before the rest.
  induction ran using settle_induction with
  | last first _ => exact .of_last (follows_of_round first)
  | changed first changes _ ih => exact .of_changed (follows_of_round first) changes ih

/-- A settling run that is capped has all the rounds that it may have. -/
theorem length_of_capped {further : Nat}
    (ran : engine.settle world elapsed further = .ok (record, after, left))
    (capped : record.capped = true) : record.readings.length = further + 1 := by
  induction ran using settle_induction with
  | last first ends =>
    -- Its last round changes the world, and is the last one only because none is left.
    rcases ends with quiet | rfl
    · rw [Round.record, quiet] at capped
      cases capped
    · rfl
  | changed _ _ _ ih => exact congrArg (· + 1) (ih capped)

/-- The record of any tick. There is at least one round and at most as many as the settings allow,
each with a reading and an outcome; a tick that is capped has all of them, and the rest is as the
record of a run must be. A tick of a world that a host can bring about has a record if both clocks
run and identifiers last. -/
theorem tick_spans (engine : Engine) (world : World) (elapsed : Duration) :
    (∀ record after left, engine.tick world elapsed = .ok (record, after, left) →
      1 ≤ record.rounds.toNat ∧ record.rounds.toNat ≤ engine.config.maxRounds.toNat ∧
        record.readings.length = record.rounds.toNat ∧
        record.outcomes.length = record.rounds.toNat ∧
        (record.capped = true → record.rounds = engine.config.maxRounds) ∧
        record.Spans engine after elapsed) ∧
      (world.Reachable →
        engine.reader.clock.nanoseconds + elapsed.nanoseconds <
          UInt64.size * nanosecondsPerSecond →
        engine.applier.clock.nanoseconds + elapsed.nanoseconds <
          UInt64.size * nanosecondsPerSecond →
        world.nextId.toNat +
          engine.settleCreates world elapsed (engine.config.maxRounds.toNat - 1) < UInt32.size →
        ∃ record after left, engine.tick world elapsed = .ok (record, after, left)) := by
  have positive := engine.maxRounds_pos
  constructor
  · intro record after left ran
    have spans := spans_of_settle ran
    have counted := rounds_of_tick ran
    have bound := (rounds_of_settle ran).2
    have some : 0 < record.readings.length := by
      -- There is a first reading.
      apply List.length_pos_of_ne_nil
      intro nothing
      have first := spans.first
      rw [nothing] at first
      cases first
    refine ⟨by omega, by omega, counted.symm, spans.outcomes.trans counted.symm, fun capped => ?_,
      spans⟩
    have full := length_of_capped ran capped
    apply UInt32.toNat_inj.mp
    omega
  · intro reachable reads applies room
    obtain ⟨record, after, left, ran, _⟩ :=
      settle_of_room reachable (Duration.exists_add reads) (Duration.exists_add applies) room
    exact ⟨record, after, left, ran⟩

/-- Five nanoseconds pass while an entity that never comes to rest turns twice. -/
theorem tick_spans_swapRules : ∃ bare made record after left,
    World.empty 4 3 = .ok bare ∧ bare.createAll swapRules = .ok made ∧
      (unreadWithin 2 rfl).tick made.2 ⟨5, by decide⟩ = .ok (record, after, left) ∧
        record.capped = true ∧ record.rounds = 2 ∧ after.reader.isStale = true ∧
          after.reader.clock.nanoseconds = 5 ∧ after.applier.clock.nanoseconds = 5 ∧
            record.readings.map (·.reread) = [true, true] ∧
              record.Spans (unreadWithin 2 rfl) after ⟨5, by decide⟩ := by
  have known : (do
      let bare ← World.empty 4 3
      let made ← bare.createAll swapRules
      let ran ← (unreadWithin 2 rfl).tick made.2 ⟨5, by decide⟩
      return (ran.1.capped, ran.1.readings.map (·.reread), decide (made.2.nextId.toNat +
        (unreadWithin 2 rfl).settleCreates made.2 ⟨5, by decide⟩ 1 < UInt32.size)) :
          Except Error _) = .ok (true, [true, true], true) := by
    cbv
  obtain ⟨bare, empty, known⟩ := bind_eq_ok_iff.mp known
  obtain ⟨made, created, known⟩ := bind_eq_ok_iff.mp known
  obtain ⟨⟨record, after, left⟩, ran, known⟩ := bind_eq_ok_iff.mp known
  obtain ⟨capped, known⟩ := Prod.mk.inj (Except.ok.inj known)
  obtain ⟨reread, room⟩ := Prod.mk.inj known
  -- Such a tick is known to succeed, and this is the one.
  obtain ⟨shape, succeeds⟩ := tick_spans (unreadWithin 2 rfl) made.2 ⟨5, by decide⟩
  have reachable : made.2.Reachable := (World.Reachable.empty empty).createAll created
  obtain ⟨_, _, _, again⟩ :=
    succeeds reachable (by decide) (by decide) (of_decide_eq_true room)
  cases ran.symm.trans again
  obtain ⟨_, _, _, _, full, spans⟩ := shape record after left ran
  exact ⟨bare, made, record, after, left, empty, created, ran, capped, full capped,
    spans.stale.trans capped, spans.readClock, spans.applyClock, reread, spans⟩

end Engine

end WordTiles
