import WordTiles.Destruction
import WordTiles.Error

/-! Configuration of the sentence search and of the settling of rules. -/

namespace WordTiles

/-- The settings of the engine. -/
structure Config where
  /-- The number of rounds after which a tick stops, settled or not. -/
  maxRounds : UInt32
  /-- A chain of predicates may turn at an `AND`. -/
  mayBend : Bool
  /-- A sentence may join subjects with `AND`. -/
  joinsSubjects : Bool
  /-- The rules of destruction, in the order in which they strike. -/
  destruction : List DestructionRule
  /-- Changes to this category are reported as changes of the goal. -/
  goal : Category
  /-- Changes to this category are reported as changes of the player. -/
  player : Category
  deriving DecidableEq

namespace Config

/-- The settings of a plain game. -/
def standard : Config where
  -- Chains may bend, subjects may be joined, and melting comes before drowning.
  maxRounds := 8
  mayBend := true
  joinsSubjects := true
  destruction := [.melting, .drowning]
  goal := .goal
  player := .i

/-- An engine needs at least one round, and a destroyer in every rule of destruction. -/
def check (config : Config) : Except Error Unit :=
  -- The round cap is looked at first, and of several bad rules the first is reported.
  if config.maxRounds = 0 then .error .zeroRoundCap
  else match config.destruction.findIdx? (·.destroyer.isEmpty) with
    | some index => .error (.emptyDestroyer index)
    | none => .ok ()

end Config

end WordTiles
