import WordTiles.Proofs.World.Edits
import WordTiles.Rules.Engine

/-! Rounds taken apart: what one round reads, brings in line and applies, and the last round of a
settling run. -/

namespace WordTiles

namespace RuleReader

variable {reader after : RuleReader} {world : World} {config : Config} {elapsed : Duration}
  {reading : Reading}

/-- A reading that succeeds brings the indicators in line with its phrases and its changes, and
reports the cell of the first phrase that the reader does not know, if there is one. -/
theorem readingOf_eq_ok {findings : Findings} {time : Duration}
    (reported : reader.readingOf world config findings time = .ok reading) :
    reading.reread = true ∧
      reading.changes = reader.rulebook.changesTo (.ofPhrases findings.phrases) ∧
      reading.indicators = indicatorMoves world findings.phrases reading.changes ∧
      (findings.phrases.find? (!reader.knows ·) = none ∧ reading.newPhraseCell = none ∨
        ∃ phrase cell, findings.phrases.find? (!reader.knows ·) = some phrase ∧
          phrase.firstCell = .ok cell ∧ reading.newPhraseCell = some cell) := by
  -- Only the cell of the first new phrase can be missing.
  unfold readingOf at reported
  cases first : findings.phrases.find? (!reader.knows ·) with
  | none =>
    simp only [first] at reported
    cases reported
    exact ⟨rfl, rfl, rfl, .inl ⟨rfl, rfl⟩⟩
  | some phrase =>
    simp only [first] at reported
    cases starts : phrase.firstCell with
    | error error =>
      rw [starts] at reported
      cases reported
    | ok cell =>
      rw [starts] at reported
      cases reported
      exact ⟨rfl, rfl, rfl, .inr ⟨phrase, cell, rfl, starts, rfl⟩⟩

/-- A reader that has not been told of a change lets time pass, does nothing else, and reports
nothing. -/
theorem advance_eq_of_fresh (fresh : reader.isStale = false)
    (read : reader.advance world config elapsed = .ok (reading, after)) :
    after = { reader with clock := after.clock } ∧ reading = .nothing after.clock := by
  -- After the clock the update ends at once.
  obtain ⟨clock, _, read⟩ := bind_eq_ok_iff.mp read
  rw [fresh, Bool.not_false] at read
  cases read
  rw [← fresh]
  exact ⟨rfl, rfl⟩

/-- A reader that has been told of a change goes by what a search of the world finds, and reports
how that differs from what it went by. -/
theorem advance_eq_of_stale (stale : reader.isStale = true)
    (read : reader.advance world config elapsed = .ok (reading, after)) :
    ∃ findings, world.search config = .ok findings ∧ findings.check = .ok () ∧
      after = ⟨false, .ofPhrases findings.phrases, findings, findings.phrases.map Phrase.spelling,
        reader.readingCount + 1, after.clock⟩ ∧
      reader.readingOf world config findings after.clock = .ok reading := by
  -- A stale reader goes through every step of a reading, and each of them succeeded.
  obtain ⟨clock, _, read⟩ := bind_eq_ok_iff.mp read
  rw [stale, Bool.not_true] at read
  simp only [Bool.false_eq_true, if_false] at read
  obtain ⟨findings, searched, read⟩ := bind_eq_ok_iff.mp read
  obtain ⟨_, checked, read⟩ := bind_eq_ok_iff.mp read
  obtain ⟨report, reported, read⟩ := bind_eq_ok_iff.mp read
  cases read
  exact ⟨findings, searched, checked, rfl, reported⟩

/-- What a reader holds is in step: its rulebook and the spellings that it knows are those of the
phrases that it found. -/
structure InStep (reader : RuleReader) : Prop where
  rulebook : reader.rulebook = .ofPhrases reader.findings.phrases
  known : reader.known = reader.findings.phrases.map Phrase.spelling

/-- A reader that has read nothing knows the rules of no phrase. -/
theorem inStep_initial : initial.InStep :=
  -- There are no phrases, no spellings and no rows.
  ⟨rfl, rfl⟩

/-- Being told of a change replaces nothing. -/
theorem InStep.signal (inStep : reader.InStep) : reader.signal.InStep :=
  -- Only the flag is set.
  ⟨inStep.rulebook, inStep.known⟩

/-- A fresh reader keeps its findings and touches no indicator. -/
theorem advance_of_fresh (fresh : reader.isStale = false)
    (read : reader.advance world config elapsed = .ok (reading, after)) :
    after.isStale = false ∧ after.findings = reader.findings ∧ reading.indicators = .none := by
  -- The update ends after the clock.
  obtain ⟨same, rfl⟩ := advance_eq_of_fresh fresh read
  rw [same]
  exact ⟨fresh, rfl, rfl⟩

/-- Reading a world that may have changed finds what a search of it finds, and puts the reader in
step with that, whatever it held before. -/
theorem advance_of_stale (stale : reader.isStale = true)
    (read : reader.advance world config elapsed = .ok (reading, after)) :
    after.isStale = false ∧ world.search config = .ok after.findings ∧
      after.findings.check = .ok () ∧ after.InStep ∧
        reading.indicators = indicatorMoves world after.findings.phrases
          (reader.rulebook.changesTo after.rulebook) := by
  obtain ⟨findings, searched, checked, same, reported⟩ := advance_eq_of_stale stale read
  -- The changes lead to the rules that the reader goes by from now on.
  obtain ⟨_, changes, moves, _⟩ := readingOf_eq_ok reported
  rw [changes] at moves
  rw [same]
  exact ⟨rfl, searched, checked, ⟨rfl, rfl⟩, moves⟩

/-- An update leaves a reader in step: one that reads the world replaces all of the three pieces,
and any other one none. -/
theorem InStep.advance (inStep : reader.InStep)
    (read : reader.advance world config elapsed = .ok (reading, after)) : after.InStep := by
  -- The flag decides which of the two updates it is.
  cases stale : reader.isStale with
  | false =>
    obtain ⟨same, _⟩ := advance_eq_of_fresh stale read
    rw [same]
    exact ⟨inStep.rulebook, inStep.known⟩
  | true => exact (advance_of_stale stale read).2.2.2.1

end RuleReader

/-- Applying rules equips every entity and finds out what is to be destroyed and replaced then. -/
theorem RuleApplier.advance_eq_ok {applier after : RuleApplier} {world equipped : World}
    {rulebook : Rulebook} {config : Config} {elapsed : Duration} {outcome : Outcome}
    (applied : applier.advance world rulebook config elapsed = .ok (outcome, after, equipped)) :
    equipped = world.mapEntities rulebook.equip ∧
      outcome.removals = equipped.destruction config.destruction ∧
      outcome.replacements = equipped.replacements rulebook outcome.removals ∧
      outcome.changesWorld = (!outcome.removals.isEmpty || !outcome.replacements.isEmpty) := by
  -- Only the clock can fail.
  obtain ⟨clock, _, applied⟩ := bind_eq_ok_iff.mp applied
  cases applied
  exact ⟨rfl, rfl, rfl, rfl⟩

/-- Carrying out what does not change the world leaves it as it is. -/
theorem RuleApplier.carryOut_of_quiet {applier after : RuleApplier} {world equipped : World}
    {rulebook : Rulebook} {config : Config} {elapsed : Duration} {outcome : Outcome}
    (applied : applier.advance world rulebook config elapsed = .ok (outcome, after, equipped))
    (quiet : outcome.changesWorld = false) : outcome.carryOut equipped = .ok ([], equipped) := by
  -- A quiet outcome asks for no removal and for no replacement.
  obtain ⟨_, _, _, changes⟩ := RuleApplier.advance_eq_ok applied
  rw [quiet] at changes
  simp only [Bool.false_eq, Bool.or_eq_false_iff, Bool.not_eq_false', List.isEmpty_iff] at changes
  unfold Outcome.carryOut
  rw [changes.1, changes.2]
  rfl

namespace Round

/-- A round reads the words of a world, passes their check and brings the indicators in line. -/
structure Reads (round : Round) (engine : Engine) (world brought : World) : Prop where
  searched : world.search engine.config = .ok round.engine.reader.findings
  checked : round.engine.reader.findings.check = .ok ()
  inStep : round.engine.reader.InStep
  moved : ∃ moves ids, moves = indicatorMoves world round.engine.reader.findings.phrases
      (engine.rulebook.changesTo round.engine.rulebook) ∧
    (world.eraseAll moves.removed).createAll moves.added = .ok (ids, brought)

/-- A round equips the entities of a world under the rules that it goes by, finds out what these ask
for, and carries that out. It leaves an engine that must read again if they ask for anything. -/
structure Applies (round : Round) (engine : Engine) (brought : World) : Prop where
  config : round.engine.config = engine.config
  removals : round.outcome.removals =
    (brought.mapEntities round.engine.rulebook.equip).destruction engine.config.destruction
  replacements : round.outcome.replacements =
    (brought.mapEntities round.engine.rulebook.equip).replacements round.engine.rulebook
      round.outcome.removals
  changes : round.outcome.changesWorld =
    (!round.outcome.removals.isEmpty || !round.outcome.replacements.isEmpty)
  stale : round.engine.reader.isStale = round.outcome.changesWorld
  carried : ∃ ids, round.outcome.carryOut (brought.mapEntities round.engine.rulebook.equip) =
    .ok (ids, round.world)

/-- A round that changes nothing asks for nothing and leaves the equipped world. -/
theorem Applies.of_quiet {round : Round} {engine : Engine} {brought : World}
    (applies : round.Applies engine brought) (quiet : round.outcome.changesWorld = false) :
    round.outcome.removals = [] ∧ round.outcome.replacements = [] ∧
      round.world = brought.mapEntities round.engine.rulebook.equip := by
  -- The flag is computed from the two lists, and so it tells that both are empty.
  have changes := applies.changes
  rw [quiet] at changes
  simp only [Bool.false_eq, Bool.or_eq_false_iff, Bool.not_eq_false', List.isEmpty_iff] at changes
  obtain ⟨removals, replacements⟩ := changes
  obtain ⟨ids, carried⟩ := applies.carried
  unfold Outcome.carryOut at carried
  rw [removals, replacements] at carried
  exact ⟨removals, replacements, (Prod.mk.inj (Except.ok.inj carried)).2.symm⟩

end Round

/-- The record of a tick that has this round alone. -/
def Round.record (round : Round) : TickRecord :=
  -- A single round is capped if it is the last that is allowed and still changed something.
  ⟨1, round.outcome.changesWorld, [round.reading], [round.outcome], round.spawned⟩

namespace TickRecord

/-- The record of rounds that are followed by others. -/
def append (record later : TickRecord) : TickRecord :=
  -- The last of the rounds decides whether the tick was capped.
  ⟨record.rounds + later.rounds, later.capped, record.readings ++ later.readings,
    record.outcomes ++ later.outcomes, record.spawned ++ later.spawned⟩

end TickRecord

namespace Engine

/-- A round that succeeds reads, brings the indicators in line, applies the rules and carries out
what they ask for. If they ask for anything, the words must be read again. -/
theorem round_eq_steps {engine : Engine} {world : World} {elapsed : Duration} {round : Round}
    (ran : engine.round world elapsed = .ok round) :
    ∃ reader ids brought applier equipped created,
      engine.reader.advance world engine.config elapsed = .ok (round.reading, reader) ∧
      round.reading.carryOut world = .ok (ids, brought) ∧
      engine.applier.advance brought reader.rulebook engine.config elapsed =
        .ok (round.outcome, applier, equipped) ∧
      round.outcome.carryOut equipped = .ok (created, round.world) ∧
      round.spawned = ids ++ created ∧
      round.engine =
        { engine with
          reader := { reader with isStale := reader.isStale || round.outcome.changesWorld }
          applier } := by
  unfold Engine.round at ran
  obtain ⟨⟨reading, reader⟩, read, ran⟩ := bind_eq_ok_iff.mp ran
  obtain ⟨⟨ids, brought⟩, carried, ran⟩ := bind_eq_ok_iff.mp ran
  obtain ⟨⟨outcome, applier, equipped⟩, applied, ran⟩ := bind_eq_ok_iff.mp ran
  dsimp only at ran
  split at ran
  · rename_i changed
    obtain ⟨⟨created, after⟩, replaced, ran⟩ := bind_eq_ok_iff.mp ran
    cases ran
    refine ⟨reader, ids, brought, applier, equipped, created, read, carried, applied, replaced, rfl,
      ?_⟩
    rw [changed, Bool.or_true]
    rfl
  · -- Nothing is asked for, so carrying it out would make no difference.
    rename_i unchanged
    have quiet := eq_false_of_ne_true unchanged
    cases ran
    refine ⟨reader, ids, brought, applier, equipped, [], read, carried, applied,
      RuleApplier.carryOut_of_quiet applied quiet, (List.append_nil _).symm, ?_⟩
    rw [quiet, Bool.or_false]

/-- A round succeeds when each of its steps does. -/
theorem round_of_steps {engine : Engine} {world brought equipped left : World} {elapsed : Duration}
    {reading : Reading} {reader : RuleReader} {ids created : List EntityId} {outcome : Outcome}
    {applier : RuleApplier}
    (read : engine.reader.advance world engine.config elapsed = .ok (reading, reader))
    (carried : reading.carryOut world = .ok (ids, brought))
    (applied : engine.applier.advance brought reader.rulebook engine.config elapsed =
      .ok (outcome, applier, equipped))
    (replaced : outcome.carryOut equipped = .ok (created, left)) :
    engine.round world elapsed = .ok ⟨reading, outcome, ids ++ created,
      { engine with
        reader := { reader with isStale := reader.isStale || outcome.changesWorld }, applier },
      left⟩ := by
  -- What is asked for is carried out only if it changes the world, and changes nothing otherwise.
  unfold Engine.round
  rw [read]
  simp only [Bind.bind, Except.bind, carried, applied]
  cases changed : outcome.changesWorld with
  | true =>
    rw [if_pos rfl, replaced, Bool.or_true]
    rfl
  | false =>
    rw [RuleApplier.carryOut_of_quiet applied changed] at replaced
    cases replaced
    rw [if_neg Bool.false_ne_true, List.append_nil, Bool.or_false]
    rfl

/-- A round that succeeds reads the words if it must, and applies the rules. -/
theorem round_eq_ok {engine : Engine} {world : World} {elapsed : Duration} {round : Round}
    (ran : engine.round world elapsed = .ok round) :
    ∃ brought, round.Applies engine brought ∧
      (engine.reader.isStale = true ∧ round.Reads engine world brought ∨
        engine.reader.isStale = false ∧
          round.engine.reader.findings = engine.reader.findings ∧ brought = world) := by
  obtain ⟨reader, ids, brought, applier, equipped, created, read, carried, applied, replaced, _,
    left⟩ := round_eq_steps ran
  obtain ⟨rfl, removals, replacements, changes⟩ := RuleApplier.advance_eq_ok applied
  -- Whoever has read is fresh, and goes by what it has found.
  have findings : round.engine.reader.findings = reader.findings := by rw [left]
  have rules : round.engine.rulebook = reader.rulebook := by rw [rulebook, left]
  have applies (fresh : reader.isStale = false) : round.Applies engine brought := by
    rw [← rules] at removals replacements replaced
    refine ⟨by rw [left], removals, replacements, changes, ?_, created, replaced⟩
    rw [left, fresh, Bool.false_or]
  cases stale : engine.reader.isStale with
  | true =>
    -- A stale reader reads, and its indicators are brought in line.
    obtain ⟨fresh, searched, checked, inStep, moves⟩ := RuleReader.advance_of_stale stale read
    rw [← findings] at searched checked moves
    rw [← rules] at moves
    have inStep : round.engine.reader.InStep := by
      rw [left]
      exact ⟨inStep.rulebook, inStep.known⟩
    exact ⟨brought, applies fresh, .inl ⟨rfl, searched, checked, inStep, _, ids, moves, carried⟩⟩
  | false =>
    -- A fresh one asks for no indicator, so the world is left as it was.
    obtain ⟨fresh, same, none⟩ := RuleReader.advance_of_fresh stale read
    unfold Reading.carryOut at carried
    rw [none] at carried
    cases carried
    exact ⟨_, applies fresh, .inr ⟨rfl, findings.trans same, rfl⟩⟩

/-- A round leaves a reader in step. -/
theorem inStep_of_round {engine : Engine} {world : World} {elapsed : Duration} {round : Round}
    (inStep : engine.reader.InStep) (ran : engine.round world elapsed = .ok round) :
    round.engine.reader.InStep := by
  -- After its update the reader is at most told of a change.
  obtain ⟨_, _, _, _, _, _, read, _, _, _, _, left⟩ := round_eq_steps ran
  obtain ⟨rules, known⟩ := inStep.advance read
  rw [left]
  exact ⟨rules, known⟩

/-- A settling run fails when its first round does. -/
theorem settle_of_error {engine : Engine} {world : World} {elapsed : Duration} {error : Error}
    (failed : engine.round world elapsed = .error error) (further : Nat) :
    engine.settle world elapsed further = .error error := by
  -- The first round is run in either case.
  cases further <;> simp [settle, failed, Bind.bind, Except.bind]

variable {engine after : Engine} {world left : World} {elapsed : Duration} {record : TickRecord}

/-- A round after which a settling run is over. -/
theorem settle_of_last {round : Round} {further : Nat}
    (first : engine.round world elapsed = .ok round)
    (last : round.outcome.changesWorld = false ∨ further = 0) :
    engine.settle world elapsed further = .ok (round.record, round.engine, round.world) := by
  -- There is no further round, or the round gives no reason for one.
  cases further with
  | zero =>
    rw [settle, first]
    rfl
  | succ further =>
    have quiet := last.resolve_right further.succ_ne_zero
    simp [settle, first, quiet, Round.record, Bind.bind, Except.bind, Pure.pure, Except.pure]

/-- A round that changes the world is followed by the others. -/
theorem settle_of_changed {round : Round} {further : Nat}
    (first : engine.round world elapsed = .ok round)
    (changed : round.outcome.changesWorld = true)
    (ran : round.engine.settle round.world .zero further = .ok (record, after, left)) :
    engine.settle world elapsed (further + 1) =
      .ok (round.record.append record, after, left) := by
  -- The further rounds start from the engine and the world that this one leaves.
  simp [settle, first, changed, ran, Round.record, TickRecord.append, Bind.bind, Except.bind,
    Pure.pure, Except.pure]

/-- A settling run consists of one round, after which it is over, or of a round that changes the
world and a run from there. -/
theorem settle_eq_ok {further : Nat}
    (ran : engine.settle world elapsed further = .ok (record, after, left)) :
    ∃ round, engine.round world elapsed = .ok round ∧
      ((round.outcome.changesWorld = false ∨ further = 0) ∧ record = round.record ∧
          after = round.engine ∧ left = round.world ∨
        round.outcome.changesWorld = true ∧ ∃ fewer rest, further = fewer + 1 ∧
          round.engine.settle round.world .zero fewer = .ok (rest, after, left) ∧
            record = round.record.append rest) := by
  -- Without further rounds the run is over whether the first one changes the world or not.
  cases further with
  | zero =>
    obtain ⟨round, first, ran⟩ := bind_eq_ok_iff.mp ran
    cases ran
    exact ⟨round, first, .inl ⟨.inr rfl, rfl, rfl, rfl⟩⟩
  | succ fewer =>
    unfold settle at ran
    obtain ⟨round, first, ran⟩ := bind_eq_ok_iff.mp ran
    refine ⟨round, first, ?_⟩
    split at ran
    · -- A round that changes the world is followed by a run of fewer rounds.
      rename_i changed
      obtain ⟨⟨rest, next, last⟩, later, ran⟩ := bind_eq_ok_iff.mp ran
      cases ran
      exact .inr ⟨changed, fewer, rest, rfl, later, rfl⟩
    · -- One that does not is the last.
      rename_i unchanged
      have quiet := eq_false_of_ne_true unchanged
      cases ran
      refine .inl ⟨.inl quiet, ?_, rfl, rfl⟩
      rw [Round.record, quiet]

/-- Induction over a settling run: its last round is followed by no other, and every other one
changes the world and is followed by the rest of the run. -/
@[elab_as_elim]
theorem settle_induction
    {motive : ∀ {engine after : Engine} {world left : World} {elapsed : Duration}
      {record : TickRecord} {further : Nat},
        engine.settle world elapsed further = .ok (record, after, left) → Prop}
    (last : ∀ {engine : Engine} {world : World} {elapsed : Duration} {further : Nat} {round : Round}
      (first : engine.round world elapsed = .ok round)
      (ends : round.outcome.changesWorld = false ∨ further = 0),
        motive (settle_of_last first ends))
    (changed : ∀ {engine after : Engine} {world left : World} {elapsed : Duration} {further : Nat}
      {round : Round} {rest : TickRecord} (first : engine.round world elapsed = .ok round)
      (changes : round.outcome.changesWorld = true)
      (later : round.engine.settle round.world .zero further = .ok (rest, after, left)),
        motive later → motive (settle_of_changed first changes later))
    {further : Nat} (ran : engine.settle world elapsed further = .ok (record, after, left)) :
    motive ran := by
  -- The number of further rounds counts down, and a run is taken apart at its first round.
  induction further generalizing engine world elapsed record with
  | zero =>
    obtain ⟨round, first, ⟨ends, rfl, rfl, rfl⟩ | ⟨_, _, _, none, _⟩⟩ := settle_eq_ok ran
    · exact last first ends
    · cases none
  | succ further ih =>
    obtain ⟨round, first, ⟨ends, rfl, rfl, rfl⟩ | ⟨changes, fewer, rest, same, later, rfl⟩⟩ :=
      settle_eq_ok ran
    · exact last first ends
    · cases same
      exact changed first changes later (ih later)

/-- A settling run ends with a round that no further one follows. Whatever each round that changes
the world keeps still holds before this last one. -/
theorem settle_ends {motive : Engine → World → Prop}
    (step : ∀ engine world elapsed round, motive engine world →
      engine.round world elapsed = .ok round → round.outcome.changesWorld = true →
        motive round.engine round.world)
    {further : Nat} (start : motive engine world)
    (ran : engine.settle world elapsed further = .ok (record, after, left)) :
    ∃ before around elapsed round, motive before around ∧
      before.round around elapsed = .ok round ∧ round.engine = after ∧ round.world = left ∧
        round.outcome.changesWorld = record.capped := by
  -- Each round either ends the run or prepares the next one.
  induction ran using settle_induction with
  | last first ends => exact ⟨_, _, _, _, start, first, rfl, rfl, rfl⟩
  | changed first changes later ih =>
    have ends := ih (step _ _ _ _ start first changes)
    exact ends

end Engine

end WordTiles
