import WordTiles.Rules.Applier
import WordTiles.Rules.Reader

/-! The engine: it reads and applies the rules in turn until the world settles. -/

namespace WordTiles

/-- The record of one tick. -/
structure TickRecord where
  /-- The number of rounds. -/
  rounds : UInt32
  /-- The tick ended at the cap on rounds and not because the world had settled. -/
  capped : Bool
  /-- What the reader reported in each round. -/
  readings : List Reading
  /-- What the applier reported in each round. -/
  outcomes : List Outcome
  /-- The entities created, indicators and replacements alike. -/
  spawned : List EntityId
  deriving DecidableEq

namespace TickRecord

/-- Every removal of the tick, in order. -/
def removals (record : TickRecord) : List Removal :=
  record.outcomes.flatMap (·.removals)

/-- The first cell of the first new phrase of the tick. -/
def newPhraseCell (record : TickRecord) : Option Cell :=
  record.readings.findSome? (·.newPhraseCell)

/-- Some round reported a change of the goal. -/
def affectsGoal (record : TickRecord) : Bool :=
  record.readings.any (·.goalAffected.isSome)

/-- Some round reported a change of the player. -/
def affectsPlayer (record : TickRecord) : Bool :=
  record.readings.any (·.playerAffected.isSome)

end TickRecord

/-- An engine. -/
structure Engine where
  config : Config
  /-- The engine can run with its settings. -/
  valid : config.check = .ok ()
  reader : RuleReader
  applier : RuleApplier
  deriving DecidableEq

/-- What one round leaves behind. -/
structure Round where
  reading : Reading
  outcome : Outcome
  spawned : List EntityId
  engine : Engine
  world : World
  deriving DecidableEq

namespace Engine

/-- An engine that has not read anything, for settings that it can run with. -/
def ofConfig (config : Config) : Except Error Engine :=
  -- The settings are checked once, and the check travels with the engine.
  match valid : config.check with
  | .ok () => .ok ⟨config, valid, .initial, .initial⟩
  | .error error => .error error

/-- Tells the engine of a change, so that its next tick reads the world again. -/
def signal (engine : Engine) : Engine :=
  -- Only the reader cares.
  { engine with reader := engine.reader.signal }

/-- The rules of the latest reading. -/
def rulebook (engine : Engine) : Rulebook := engine.reader.rulebook

/-- One round: the rules are read and the indicators brought in line, then the rules are applied. If
they remove or replace anything, that is carried out, and the words must be read again. -/
def round (engine : Engine) (world : World) (elapsed : Duration) : Except Error Round := do
  let (reading, reader) ← engine.reader.advance world engine.config elapsed
  -- Indicators are placed before the rules are applied, which leave them alone.
  let (indicators, world) ← reading.carryOut world
  let (outcome, applier, world) ← engine.applier.advance world reader.rulebook engine.config elapsed
  -- What was removed or created may have borne words.
  if outcome.changesWorld then
    let (created, world) ← outcome.carryOut world
    return ⟨reading, outcome, indicators ++ created,
      { engine with reader := reader.signal, applier }, world⟩
  else
    return ⟨reading, outcome, indicators, { engine with reader, applier }, world⟩

/-- Runs a round and, while rounds change the world, up to a number of further ones. Time passes in
the first round alone. -/
def settle (engine : Engine) (world : World) (elapsed : Duration) :
    Nat → Except Error (TickRecord × Engine × World)
  -- The last round that is allowed, which leaves the world unsettled if it changed it.
  | 0 => do
    let round ← engine.round world elapsed
    return (⟨1, round.outcome.changesWorld, [round.reading], [round.outcome], round.spawned⟩,
      round.engine, round.world)
  | further + 1 => do
    let round ← engine.round world elapsed
    if round.outcome.changesWorld then
      -- The further rounds take no time of their own.
      let (record, engine, world) ← round.engine.settle round.world .zero further
      return (⟨1 + record.rounds, record.capped, round.reading :: record.readings,
        round.outcome :: record.outcomes, round.spawned ++ record.spawned⟩, engine, world)
    else
      return (⟨1, false, [round.reading], [round.outcome], round.spawned⟩,
        round.engine, round.world)

/-- Settles the world. A tick has at least one round, and at most as many as the settings allow. -/
def tick (engine : Engine) (world : World) (elapsed : Duration) :
    Except Error (TickRecord × Engine × World) :=
  -- The settings allow one round at least, and the count is of those after the first.
  engine.settle world elapsed (engine.config.maxRounds.toNat - 1)

end Engine

end WordTiles
