import WordTiles.Destruction
import WordTiles.Duration
import WordTiles.World.Edit

/-! Outcomes: the removals and replacements that the rules ask for, and how a world carries them
out. -/

namespace WordTiles

/-- A request to remove an entity. -/
structure Removal where
  id : EntityId
  cause : RemovalCause
  deriving DecidableEq

/-- A request to put new entities in the place of an old one. -/
structure Replacement where
  old : EntityId
  spawns : List SpawnRequest
  deriving DecidableEq

/-- What one application of the rules did, in numbers. -/
structure OutcomeStats where
  /-- The entities whose properties or abilities were changed. -/
  equipped : UInt64
  /-- The occupied cells that were looked at for destruction. -/
  cellsSearched : UInt64
  removals : UInt64
  replacements : UInt64
  deriving DecidableEq

/-- Everything that one application of the rules reports. -/
structure Outcome where
  removals : List Removal
  replacements : List Replacement
  /-- Something is to be removed or replaced. -/
  changesWorld : Bool
  stats : OutcomeStats
  /-- The time of the application. -/
  time : Duration
  deriving DecidableEq

namespace Outcome

/-- The outcome before anything has been applied. -/
def nothing : Outcome :=
  -- Nothing was looked at, and no time has passed.
  ⟨[], [], false, ⟨0, 0, 0, 0⟩, .zero⟩

/-- Carries out replacements one after the other, and lists the entities that they create. A
replacement whose old entity is gone is skipped. -/
def replaceAll (world : World) : List Replacement → Except Error (List EntityId × World)
  | [] => .ok ([], world)
  | replacement :: rest =>
    match world.take? replacement.old with
    -- The old entity was removed before its turn came.
    | none => replaceAll world rest
    -- The old entity goes before its successors come.
    | some (_, world) => do
      let (created, world) ← world.createAll replacement.spawns
      let (later, world) ← replaceAll world rest
      return (created ++ later, world)

/-- Carries out the removals, then the replacements. -/
def carryOut (outcome : Outcome) (world : World) : Except Error (List EntityId × World) :=
  -- A replacement of an entity that is removed here will find it gone.
  replaceAll (world.eraseAll (outcome.removals.map (·.id))) outcome.replacements

end Outcome

end WordTiles
