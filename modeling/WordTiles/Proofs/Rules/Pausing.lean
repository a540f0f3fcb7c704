import Mathlib.Algebra.GroupWithZero.Nat
import WordTiles.Proofs.Rules.Settling

/-! Ticks that end at the cap on rounds: the next tick goes on where the last one stopped, so that
several ticks in a row do what one with a higher cap does. -/

namespace WordTiles

/-- Two settings that differ at most in the cap on rounds. -/
def Config.Matches (config other : Config) : Prop :=
  -- Every field but the cap is that of the first.
  other = { config with maxRounds := other.maxRounds }

namespace Config.Matches

variable {config other : Config} (same : config.Matches other)

include same

/-- The drafts on a board are followed without regard to the cap. -/
theorem drain (board : Board) (drafts : List Draft) (found : Array Phrase) :
    Agenda.drain board other drafts found = Agenda.drain board config drafts found := by
  -- A draft forks on two settings, neither of which is the cap.
  have forks (draft : Draft) : draft.forks board other = draft.forks board config := by
    rw [same]
    rfl
  fun_induction Agenda.drain board config drafts found with
  | case1 found => rw [Agenda.drain]
  | case2 found draft rest error failed =>
    rw [Agenda.drain]
    split <;> rename_i forked <;> rw [forks, failed] at forked <;> cases forked
    rfl
  | case3 found draft rest onward forked ih =>
    rw [Agenda.drain]
    split <;> rename_i again <;> rw [forks, forked] at again <;> cases again
    exact ih

/-- So a search finds the same. -/
theorem search (world : World) : world.search other = world.search config := by
  -- Nothing but the agenda looks at the settings.
  unfold World.search Board.search Agenda.sentences
  rw [same.drain]

/-- So does a reading. -/
theorem read (reader : RuleReader) (world : World) (elapsed : Duration) :
    reader.advance world other elapsed = reader.advance world config elapsed := by
  -- A report looks at the goal and at the player, which are the same.
  have report (findings : Findings) (time : Duration) :
      reader.readingOf world other findings time = reader.readingOf world config findings time := by
    rw [same]
    rfl
  simp only [RuleReader.advance, same.search, report]

/-- So does the application of rules. -/
theorem apply (applier : RuleApplier) (world : World) (rulebook : Rulebook) (elapsed : Duration) :
    applier.advance world rulebook other elapsed =
      applier.advance world rulebook config elapsed := by
  -- An application looks at the rules of destruction, which are the same.
  rw [same]
  rfl

end Config.Matches

/-- Two engines that differ at most in the cap on rounds. -/
structure Engine.Matches (engine other : Engine) : Prop where
  config : engine.config.Matches other.config
  reader : other.reader = engine.reader
  applier : other.applier = engine.applier

namespace TickRecord

/-- It does not matter in which order records are put together. -/
theorem append_assoc (a b c : TickRecord) : (a.append b).append c = a.append (b.append c) := by
  -- Rounds are added, lists are appended, and the last cap counts.
  simp [append, UInt32.add_assoc, List.append_assoc]

/-- One record tells what several in a row tell, and ends as the last of them does. -/
structure Joins (record : TickRecord) (records : List TickRecord) : Prop where
  capped : records.getLast?.map (·.capped) = some record.capped
  readings : record.readings = records.flatMap (·.readings)
  outcomes : record.outcomes = records.flatMap (·.outcomes)
  spawned : record.spawned = records.flatMap (·.spawned)

/-- A record joins itself alone. -/
theorem Joins.singleton (record : TickRecord) : record.Joins [record] :=
  -- Appending nothing changes nothing.
  ⟨rfl, (List.append_nil _).symm, (List.append_nil _).symm, (List.append_nil _).symm⟩

/-- What joins some records also joins them and one in front, if that one is put in front of it. -/
theorem Joins.cons {record later : TickRecord} {records : List TickRecord}
    (joins : later.Joins records) : (record.append later).Joins (record :: records) where
  -- The last record stays the last, since there is one behind the new one.
  capped := by
    cases records with
    | nil => cases joins.capped
    | cons next rest => exact joins.capped
  readings := congrArg (record.readings ++ ·) joins.readings
  outcomes := congrArg (record.outcomes ++ ·) joins.outcomes
  spawned := congrArg (record.spawned ++ ·) joins.spawned

end TickRecord

namespace Engine

variable {engine other after : Engine} {world left : World} {elapsed : Duration}
  {record : TickRecord}

/-- Engines that differ in the cap alone go through the same round, and still differ in nothing
else. -/
theorem Matches.round (same : engine.Matches other) {round : Round}
    (ran : engine.round world elapsed = .ok round) :
    ∃ later, other.round world elapsed = .ok { round with engine := later } ∧
      round.engine.Matches later ∧ later.config = other.config := by
  -- No step of a round looks at the cap, so each step comes out as before.
  obtain ⟨config, reader, applier⟩ := same
  unfold Engine.round at ran ⊢
  rw [reader, applier, config.read]
  obtain ⟨⟨reading, reader⟩, read, ran⟩ := bind_eq_ok_iff.mp ran
  obtain ⟨⟨indicators, brought⟩, carried, ran⟩ := bind_eq_ok_iff.mp ran
  obtain ⟨⟨outcome, applier, equipped⟩, applied, ran⟩ := bind_eq_ok_iff.mp ran
  simp only [read, carried, config.apply, applied, Bind.bind, Except.bind]
  dsimp only at ran
  split at ran
  · rename_i changed
    obtain ⟨⟨created, remaining⟩, replaced, ran⟩ := bind_eq_ok_iff.mp ran
    cases ran
    rw [if_pos changed, replaced]
    exact ⟨_, rfl, ⟨config, rfl, rfl⟩, rfl⟩
  · rename_i unchanged
    cases ran
    rw [if_neg unchanged]
    exact ⟨_, rfl, ⟨config, rfl, rfl⟩, rfl⟩

/-- A settling run does not touch the settings. -/
theorem config_of_settle {further : Nat}
    (ran : engine.settle world elapsed further = .ok (record, after, left)) :
    after.config = engine.config := by
  -- Every round keeps them.
  induction ran using settle_induction with
  | last first _ =>
    obtain ⟨_, applies, _⟩ := round_eq_ok first
    exact applies.config
  | changed first _ _ ih =>
    obtain ⟨_, applies, _⟩ := round_eq_ok first
    exact ih.trans applies.config

/-- A settling run counts its rounds, each of which has a reading. -/
theorem rounds_of_settle {further : Nat}
    (ran : engine.settle world elapsed further = .ok (record, after, left)) :
    record.rounds = .ofNat record.readings.length ∧ record.readings.length ≤ further + 1 := by
  -- By induction on the run, each round of which adds one to both.
  induction ran using settle_induction with
  | last => exact ⟨rfl, Nat.le_add_left ..⟩
  | @changed _ _ _ _ _ _ round rest _ _ _ ih =>
    obtain ⟨rounds, bound⟩ := ih
    refine ⟨?_, Nat.succ_le_succ bound⟩
    show 1 + rest.rounds = UInt32.ofNat (rest.readings.length + 1)
    rw [UInt32.ofNat_add, ← rounds, UInt32.add_comm]
    rfl

/-- Engines that differ in the cap alone settle a world alike in equally many rounds. -/
theorem Matches.settle (same : engine.Matches other) {further : Nat}
    (ran : engine.settle world elapsed further = .ok (record, after, left)) :
    ∃ later, other.settle world elapsed further = .ok (record, later, left) ∧
      after.Matches later := by
  -- By induction on the run: after every round the engines still match.
  induction ran using settle_induction generalizing other with
  | last first ends =>
    obtain ⟨later, first, same, _⟩ := same.round first
    exact ⟨later, settle_of_last first ends, same⟩
  | changed first changes _ ih =>
    obtain ⟨middle, again, same, _⟩ := same.round first
    obtain ⟨later, ran, same⟩ := ih same
    have longer := settle_of_changed again changes ran
    exact ⟨later, longer, same⟩

/-- A settling run that ends at its cap can be resumed, and the two runs together are one run. -/
theorem settle_append {middle : Engine} {around : World} {rest : TickRecord} {first further : Nat}
    (ran : engine.settle world elapsed first = .ok (record, middle, around))
    (capped : record.capped = true)
    (later : middle.settle around .zero further = .ok (rest, after, left)) :
    engine.settle world elapsed (first + 1 + further) =
      .ok (record.append rest, after, left) := by
  -- By induction on the first run, the last round of which is followed by the second run.
  induction ran using settle_induction with
  | last start ends =>
    rcases ends with quiet | rfl
    · rw [Round.record, quiet] at capped
      cases capped
    · rw [Nat.zero_add, Nat.add_comm]
      exact settle_of_changed start capped later
  | changed start changes _ ih =>
    have longer := settle_of_changed start changes (ih capped later)
    rw [TickRecord.append_assoc, Nat.add_right_comm (_ + 1) 1]
    exact longer

/-- A tick and further ones right after it, in which no time passes. -/
def ticks (engine : Engine) (world : World) (elapsed : Duration) :
    Nat → Except Error (List TickRecord × Engine × World)
  -- Each tick goes on from what the one before it has left.
  | 0 => do
    let (record, engine, world) ← engine.tick world elapsed
    return ([record], engine, world)
  | further + 1 => do
    let (record, engine, world) ← engine.tick world elapsed
    let (records, engine, world) ← engine.ticks world .zero further
    return (record :: records, engine, world)

/-- There is a record of every tick. -/
theorem length_ticks {further : Nat} {records : List TickRecord}
    (ran : engine.ticks world elapsed further = .ok (records, after, left)) :
    records.length = further + 1 := by
  -- Each tick adds one record.
  induction further generalizing engine world elapsed records with
  | zero =>
    obtain ⟨⟨record, _, _⟩, _, ran⟩ := bind_eq_ok_iff.mp ran
    cases ran
    rfl
  | succ further ih =>
    obtain ⟨⟨record, middle, around⟩, _, ran⟩ := bind_eq_ok_iff.mp ran
    obtain ⟨⟨rest, _, _⟩, later, ran⟩ := bind_eq_ok_iff.mp ran
    cases ran
    rw [List.length_cons, ih later]

/-- The cap of an engine is positive. -/
theorem maxRounds_pos (engine : Engine) : 0 < engine.config.maxRounds.toNat := by
  -- The check of the settings refuses a cap of zero.
  have valid := engine.valid
  unfold Config.check at valid
  split at valid
  · cases valid
  · rename_i positive
    exact Nat.pos_of_ne_zero fun zero => positive (UInt32.toNat_inj.mp zero)

/-- A tick has as many rounds as readings. -/
theorem rounds_of_tick (ran : engine.tick world elapsed = .ok (record, after, left)) :
    record.rounds.toNat = record.readings.length := by
  -- There are no more rounds than the cap allows, so that the count does not wrap.
  obtain ⟨rounds, bound⟩ := rounds_of_settle ran
  have positive := engine.maxRounds_pos
  rw [Nat.sub_add_cancel positive] at bound
  rw [rounds]
  exact UInt32.toNat_ofNat_of_lt' (Nat.lt_of_le_of_lt bound engine.config.maxRounds.toNat_lt)

/-- So has each of several ticks. -/
theorem rounds_of_ticks {further : Nat} {records : List TickRecord}
    (ran : engine.ticks world elapsed further = .ok (records, after, left)) :
    records.map (·.rounds.toNat) = records.map (·.readings.length) := by
  -- Each tick is one by itself.
  induction further generalizing engine world elapsed records with
  | zero =>
    obtain ⟨⟨record, _, _⟩, first, ran⟩ := bind_eq_ok_iff.mp ran
    cases ran
    exact congrArg ([·]) (rounds_of_tick first)
  | succ further ih =>
    obtain ⟨⟨record, middle, around⟩, first, ran⟩ := bind_eq_ok_iff.mp ran
    obtain ⟨⟨rest, _, _⟩, later, ran⟩ := bind_eq_ok_iff.mp ran
    cases ran
    rw [List.map_cons, List.map_cons, rounds_of_tick first, ih later]

/-- Ticks in a row, all but the last of which end at their cap, are one settling run. -/
theorem settle_of_ticks {further : Nat} {records : List TickRecord}
    (same : engine.Matches other)
    (ran : engine.ticks world elapsed further = .ok (records, after, left))
    (capped : ∀ record ∈ records.dropLast, record.capped = true) :
    ∃ record later,
      other.settle world elapsed ((further + 1) * engine.config.maxRounds.toNat - 1) =
          .ok (record, later, left) ∧
        after.Matches later ∧ record.Joins records := by
  -- By induction on the further ticks, which together are the run that resumes the first tick.
  induction further generalizing engine other world elapsed records with
  | zero =>
    obtain ⟨⟨record, _, _⟩, ran, done⟩ := bind_eq_ok_iff.mp ran
    cases done
    rw [Nat.zero_add, Nat.one_mul]
    obtain ⟨later, ran, same⟩ := same.settle ran
    exact ⟨record, later, ran, same, .singleton record⟩
  | succ further ih =>
    obtain ⟨⟨record, middle, around⟩, first, ran⟩ := bind_eq_ok_iff.mp ran
    obtain ⟨⟨rest, _, _⟩, next, ran⟩ := bind_eq_ok_iff.mp ran
    cases ran
    have more : rest ≠ [] := List.ne_nil_of_length_eq_add_one (length_ticks next)
    rw [List.dropLast_cons_of_ne_nil more, List.forall_mem_cons] at capped
    obtain ⟨resumed, paused, same⟩ := same.settle first
    obtain ⟨joined, later, ran, same, joins⟩ := ih same next capped.2
    refine ⟨record.append joined, later, ?_, same, joins.cons⟩
    have longer := settle_append paused capped.1 ran
    -- The rounds of the first tick and those of the others are all that there may be.
    have positive := engine.maxRounds_pos
    have others := Nat.mul_pos further.succ_pos positive
    rw [config_of_settle first, ← Nat.add_sub_assoc others, Nat.sub_add_cancel positive,
      Nat.add_comm, ← Nat.succ_mul] at longer
    exact longer

/-- Several ticks in a row, all but the last of which end at their cap, do what one tick does whose
cap is the sum of theirs. They leave the same world, reader and applier, and it reports what they
report together. -/
theorem tick_eq_ticks {records : List TickRecord} {further : Nat} (same : engine.Matches other)
    (sum : other.config.maxRounds.toNat = (further + 1) * engine.config.maxRounds.toNat)
    (ran : engine.ticks world elapsed further = .ok (records, after, left))
    (capped : ∀ record ∈ records.dropLast, record.capped = true) :
    ∃ record later, other.tick world elapsed = .ok (record, later, left) ∧ after.Matches later ∧
      record.Joins records ∧ record.rounds.toNat = (records.map (·.rounds.toNat)).sum := by
  -- A tick that ends at its cap leaves its engine stale, and so the next tick goes on as a further
  -- round would.
  obtain ⟨record, later, settled, matched, joins⟩ := settle_of_ticks same ran capped
  rw [← sum] at settled
  refine ⟨record, later, settled, matched, joins, ?_⟩
  rw [rounds_of_tick settled, joins.readings, List.length_flatMap, rounds_of_ticks ran]

/-- An engine with the settings of a plain game up to its cap that has not read anything. -/
def unreadWithin (cap : UInt32)
    (valid : ({ Config.standard with maxRounds := cap }).check = .ok ()) : Engine :=
  -- The check is given along, since it depends on the cap.
  ⟨{ Config.standard with maxRounds := cap }, valid, .initial, .initial⟩

/-- The words of two rules, each of which undoes the other, and an entity for them. -/
def swapRules : List SpawnRequest :=
  -- The entity stands on neither rule.
  [.tile .rock ⟨0, 0⟩, .tile .is ⟨1, 0⟩, .tile .wall ⟨2, 0⟩,
    .tile .wall ⟨0, 2⟩, .tile .is ⟨1, 2⟩, .tile .rock ⟨2, 2⟩, .object .rock ⟨3, 1⟩]

/-- An entity that never comes to rest: two ticks of two rounds do what one of four does. -/
theorem tick_eq_ticks_swapRules : ∃ bare made records after left record later,
    World.empty 4 3 = .ok bare ∧ bare.createAll swapRules = .ok made ∧
      (unreadWithin 2 rfl).ticks made.2 .zero 1 = .ok (records, after, left) ∧
        records.map (·.capped) = [true, true] ∧
          (unreadWithin 4 rfl).tick made.2 .zero = .ok (record, later, left) ∧
            after.Matches later ∧ record.Joins records ∧
              record.rounds.toNat = (records.map (·.rounds.toNat)).sum := by
  -- The two ticks are evaluated, and the theorem gives the one that does the same.
  have known : (do
      let bare ← World.empty 4 3
      let made ← bare.createAll swapRules
      let ran ← (unreadWithin 2 rfl).ticks made.2 .zero 1
      return ran.1.map (·.capped) : Except Error _) = .ok [true, true] := by
    cbv
  obtain ⟨bare, empty, known⟩ := bind_eq_ok_iff.mp known
  obtain ⟨made, created, known⟩ := bind_eq_ok_iff.mp known
  obtain ⟨⟨records, after, left⟩, ran, known⟩ := bind_eq_ok_iff.mp known
  have capped : records.map (·.capped) = [true, true] := Except.ok.inj known
  have all : ∀ record ∈ records.dropLast, record.capped = true := by
    intro record member
    have told : record.capped ∈ records.map (·.capped) :=
      List.mem_map_of_mem ((List.dropLast_sublist _).subset member)
    rw [capped] at told
    simpa using told
  have same : (unreadWithin 2 rfl).Matches (unreadWithin 4 rfl) := ⟨rfl, rfl, rfl⟩
  obtain ⟨record, later, settled, rest⟩ := tick_eq_ticks same (by decide) ran all
  exact ⟨bare, made, records, after, left, record, later, empty, created, ran, capped, settled,
    rest⟩

end Engine

end WordTiles
