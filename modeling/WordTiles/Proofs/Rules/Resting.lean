import WordTiles.Proofs.Rules.Changes
import WordTiles.Proofs.Rules.Indicators
import WordTiles.Proofs.Rules.Settling

/-! Rest: a tick that ends by itself leaves nothing for the next one to do. -/

namespace WordTiles

/-- The report of a reading that found everything as it was. -/
def Reading.unchanged (time : Duration) : Reading :=
  -- That the words were read again is all that is reported.
  { Reading.nothing time with reread := true }

/-- The outcome of rules that ask for nothing. -/
def Outcome.idle (world : World) (time : Duration) : Outcome :=
  -- Occupied cells are counted even if nothing happens on them.
  { Outcome.nothing with stats := ⟨0, .ofNat world.occupied.length, 0, 0⟩, time }

/-- The sum of two spans is the span with the nanoseconds of both, if there is one. -/
theorem Duration.add_eq_ok_iff {a b sum : Duration} :
    a.add b = .ok sum ↔ sum.nanoseconds = a.nanoseconds + b.nanoseconds := by
  -- A sum is a span if it is in range, and every span is.
  obtain ⟨total, inRange⟩ := sum
  unfold add ofNanoseconds?
  dsimp only
  constructor
  · intro added
    split at added <;> rename_i found
    · cases added
      split at found <;> cases found
      rfl
    · cases added
  · intro same
    subst same
    rw [dif_pos inRange]

/-- So spans add up while the sum is in range. -/
theorem Duration.exists_add {a b : Duration}
    (inRange : a.nanoseconds + b.nanoseconds < UInt64.size * nanosecondsPerSecond) :
    ∃ sum, a.add b = .ok sum :=
  -- The sum itself is the span.
  ⟨⟨_, inRange⟩, add_eq_ok_iff.mpr rfl⟩

/-- A clock can let no time pass. -/
theorem Duration.add_zero (duration : Duration) : duration.add .zero = .ok duration :=
  -- Adding nothing stays in range.
  add_eq_ok_iff.mpr rfl

/-- Everything is as the latest reading and the latest application of the rules left it. -/
structure Engine.AtRest (engine : Engine) (world : World) : Prop where
  fresh : engine.reader.isStale = false
  /-- The findings are those of a search of the world. -/
  current : world.search engine.config = .ok engine.reader.findings
  checked : engine.reader.findings.check = .ok ()
  inStep : engine.reader.InStep
  inPlace : world.InPlace engine.reader.findings.phrases
  equipped : ∀ entity ∈ world.entities, engine.rulebook.equip entity = entity
  /-- Nobody is to be destroyed. -/
  unharmed : world.destruction engine.config.destruction = []
  /-- Nobody is to turn into anything else. -/
  unturned : world.replacements engine.rulebook [] = []

/-- Indicators that are in place are still there when every entity has been equipped. -/
theorem World.InPlace.equip {world : World} {phrases : List Phrase}
    (inPlace : world.InPlace phrases) (rulebook : Rulebook) :
    (world.mapEntities rulebook.equip).InPlace phrases := by
  -- Equipping keeps what an indicator shows and where it stands.
  intro entity live indicator shown site belongs
  obtain ⟨before, known, rfl⟩ := Rulebook.mem_entities_equip_iff.mp live
  rw [Rulebook.indicator_equip] at shown
  rw [Rulebook.position_equip]
  exact inPlace before known indicator shown site belongs

namespace RuleReader

variable {reader : RuleReader} {world : World} {config : Config}

/-- A reading that finds the same phrases again reports no change. -/
theorem readingOf_self (inStep : reader.InStep) (inPlace : world.InPlace reader.findings.phrases)
    (time : Duration) :
    reader.readingOf world config reader.findings time = .ok (.unchanged time) := by
  -- The reader knows every one of these phrases, and goes by their rules.
  have known : reader.findings.phrases.find? (!reader.knows ·) = none := by
    refine List.find?_eq_none.mpr fun phrase listed => ?_
    rw [knows, inStep.known, Bool.not_eq_true', Bool.not_eq_false, List.contains_eq_mem,
      decide_eq_true_eq]
    exact List.mem_map_of_mem listed
  have same : reader.rulebook.changesTo (.ofPhrases reader.findings.phrases) = [] := by
    rw [inStep.rulebook]
    exact Rulebook.changesTo_self _
  unfold readingOf
  rw [known, same]
  dsimp only
  rw [World.indicatorMoves_eq_none inPlace]
  simp [RuleChange.concerned, Reading.unchanged, Reading.nothing, Bind.bind, Except.bind,
    Pure.pure, Except.pure]

/-- A reader that is told of a change where there is none reads the world again and reports that
everything is as it was. -/
theorem advance_signal (inStep : reader.InStep)
    (current : world.search config = .ok reader.findings)
    (checked : reader.findings.check = .ok ())
    (inPlace : world.InPlace reader.findings.phrases) (elapsed : Duration) :
    reader.signal.advance world config elapsed = do
      let clock ← reader.clock.add elapsed
      return (.unchanged clock,
        { reader with isStale := false, readingCount := reader.readingCount + 1, clock }) := by
  have reported (time : Duration) :
      reader.signal.readingOf world config reader.findings time = .ok (.unchanged time) :=
    readingOf_self inStep.signal inPlace time
  unfold advance
  rw [current]
  -- What the reading puts in place is what the reader held.
  simp only [Bind.bind, Except.bind, checked, reported, ← inStep.rulebook, ← inStep.known]
  rfl

end RuleReader

/-- Rules that ask for nothing leave a world whose entities are equipped as it is. -/
theorem RuleApplier.outcomeOf_eq_idle {world : World} {rulebook : Rulebook} {config : Config}
    (equipped : ∀ entity ∈ world.entities, rulebook.equip entity = entity)
    (unharmed : world.destruction config.destruction = [])
    (unturned : world.replacements rulebook [] = []) (time : Duration) :
    outcomeOf world rulebook config time = (.idle world time, world) := by
  -- Equipping changes nobody, so that the world that is searched is the one that was there.
  have nobody : world.entities.filter (fun entity => rulebook.equip entity != entity) = [] := by
    refine List.filter_eq_nil_iff.mpr fun entity live => ?_
    simp [equipped entity live]
  unfold outcomeOf
  rw [World.mapEntities_eq_self equipped]
  dsimp only
  rw [unharmed, unturned, nobody]
  rfl

namespace Engine

variable {engine : Engine} {world : World}

/-- The engine after a round that found everything as it was. -/
def repeated (engine : Engine) (readTime applyTime : Duration) : Engine :=
  -- Findings, rulebook and settings stay; only the counts and the clocks go on.
  { engine with
    reader := { engine.reader with
      isStale := false, readingCount := engine.reader.readingCount + 1, clock := readTime }
    applier := ⟨engine.applier.updateCount + 1, applyTime⟩ }

/-- At rest, a round that reads the words again finds everything as it was. -/
theorem AtRest.round_signal (atRest : engine.AtRest world) (elapsed : Duration) :
    engine.signal.round world elapsed = do
      let readTime ← engine.reader.clock.add elapsed
      let applyTime ← engine.applier.clock.add elapsed
      return ⟨.unchanged readTime, .idle world applyTime, [],
        engine.repeated readTime applyTime, world⟩ := by
  unfold Engine.round
  have read := RuleReader.advance_signal atRest.inStep atRest.current atRest.checked atRest.inPlace
    elapsed
  change (engine.reader.signal.advance world engine.config elapsed >>= _) = _
  rw [read]
  cases engine.reader.clock.add elapsed with
  | error error => rfl
  | ok readTime =>
    -- No indicator is moved, and the rules are applied to the world as it is.
    change (engine.applier.advance world engine.rulebook engine.config elapsed >>= _) = _
    unfold RuleApplier.advance
    cases engine.applier.clock.add elapsed with
    | error error => rfl
    | ok applyTime =>
      have idle := RuleApplier.outcomeOf_eq_idle atRest.equipped atRest.unharmed atRest.unturned
        applyTime
      simp only [Bind.bind, Except.bind, idle]
      rfl

/-- A round that begins with a reading and changes nothing leaves everything at rest. -/
theorem atRest_of_round {elapsed : Duration} {round : Round} (reachable : world.Reachable)
    (plain : world.IsPlain) (stale : engine.reader.isStale = true)
    (ran : engine.round world elapsed = .ok round) (quiet : round.outcome.changesWorld = false) :
    round.engine.AtRest round.world := by
  -- What holds after a quiet round is read off its two halves.
  obtain ⟨brought, applies, either⟩ := round_eq_ok ran
  rcases either with ⟨_, reads⟩ | ⟨fresh, _⟩
  · obtain ⟨_, _, board⟩ := reads.spec reachable plain
    obtain ⟨_, _, rfl, carried⟩ := reads.moved
    obtain ⟨removals, replacements, left⟩ := applies.of_quiet quiet
    rw [applies.replacements, removals] at replacements
    rw [applies.removals, ← applies.config] at removals
    rw [left]
    constructor
    · exact applies.stale.trans quiet
    · -- Neither moving indicators nor equipping changes what the words spell.
      rw [World.search, World.board_mapEntities (Rulebook.word_equip _), board, applies.config]
      exact reads.searched
    · exact reads.checked
    · exact reads.inStep
    · exact (World.inPlace_indicatorMoves carried).equip _
    · intro entity live
      obtain ⟨before, _, rfl⟩ := Rulebook.mem_entities_equip_iff.mp live
      exact Rulebook.equip_equip _ before
    · exact removals
    · exact replacements
  · -- The round did begin with a reading.
    rw [stale] at fresh
    cases fresh

/-- A settling run that is not capped leaves everything at rest. -/
theorem settle_atRest {further : Nat} {engine after : Engine} {world left : World}
    {elapsed : Duration} {record : TickRecord} (reachable : world.Reachable)
    (plain : world.IsPlain) (stale : engine.reader.isStale = true)
    (ran : engine.settle world elapsed further = .ok (record, after, left))
    (uncapped : record.capped = false) : after.AtRest left := by
  -- The last round began with a reading as well, and changed nothing.
  obtain ⟨before, around, _, round, ⟨keeps, stale⟩, last, rfl, rfl, capped⟩ :=
    settle_ends_reading reachable plain stale ran
  exact atRest_of_round keeps.reachable keeps.plain stale last (capped.trans uncapped)

/-- At rest, a tick that reads the words again is one round that changes nothing. -/
theorem AtRest.settle_signal (atRest : engine.AtRest world) (elapsed : Duration) (further : Nat) :
    engine.signal.settle world elapsed further = do
      let readTime ← engine.reader.clock.add elapsed
      let applyTime ← engine.applier.clock.add elapsed
      return (⟨1, false, [.unchanged readTime], [.idle world applyTime], []⟩,
        engine.repeated readTime applyTime, world) := by
  -- The round is idle, so that no further one follows, or it fails as a clock does.
  have ran := atRest.round_signal elapsed
  cases read : engine.reader.clock.add elapsed with
  | error error =>
    rw [read] at ran
    exact settle_of_error ran further
  | ok readTime =>
    cases applied : engine.applier.clock.add elapsed with
    | error error =>
      rw [read, applied] at ran
      exact settle_of_error ran further
    | ok applyTime =>
      rw [read, applied] at ran
      exact settle_of_last ran (.inl rfl)

/-- A settled tick is a fixed point: on a world that a host can bring about and whose entities are
plain, with whatever indicators, if a tick that begins with a reading ends before its cap, then
telling the engine of a change once more leads to a tick of one round that reads the words again,
reports nothing, asks for nothing, and leaves the world exactly as it is. Only a clock can stop
it. -/
theorem tick_again {after : Engine} {left : World} {elapsed : Duration} {record : TickRecord}
    (reachable : world.Reachable) (plain : world.IsPlain) (stale : engine.reader.isStale = true)
    (ran : engine.tick world elapsed = .ok (record, after, left))
    (uncapped : record.capped = false) (later : Duration) :
    after.signal.tick left later = do
      let readTime ← after.reader.clock.add later
      let applyTime ← after.applier.clock.add later
      return (⟨1, false, [.unchanged readTime], [.idle left applyTime], []⟩,
        after.repeated readTime applyTime, left) :=
  -- What is at rest stays so, whatever the number of rounds that are allowed.
  (settle_atRest reachable plain stale ran uncapped).settle_signal later _

/-- When a rock has turned into a wall, the next tick finds everything as it was. -/
theorem tick_again_rockOnRule : ∃ bare ids world record after left,
    World.empty 3 1 = .ok bare ∧ bare.createAll rockOnRule = .ok (ids, world) ∧
      unread.tick world .zero = .ok (record, after, left) ∧ record.rounds = 2 ∧
        after.signal.tick left .zero =
          .ok (⟨1, false, [.unchanged after.reader.clock], [.idle left after.applier.clock], []⟩,
            after.repeated after.reader.clock after.applier.clock, left) := by
  obtain ⟨bare, ids, world, record, after, left, empty, created, reachable, plain, ran, rounds,
    uncapped, _⟩ := exists_tick_rockOnRule
  have again := tick_again reachable plain rfl ran uncapped .zero
  -- No time passes, so the clocks cannot fail.
  rw [Duration.add_zero, Duration.add_zero] at again
  exact ⟨bare, ids, world, record, after, left, empty, created, ran, rounds, again⟩

end Engine

end WordTiles
