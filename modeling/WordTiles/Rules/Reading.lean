import WordTiles.Config
import WordTiles.Duration
import WordTiles.Rules.Change
import WordTiles.Findings
import WordTiles.World.Edit

/-! Readings: what the words on a world, read anew, mean for the entities that stand there. -/

namespace WordTiles

/-- How the indicators of a world are brought in line with the phrases on it. -/
structure IndicatorMoves where
  /-- The indicators that are to be removed. -/
  removed : List EntityId
  /-- The indicators that are to be created. -/
  added : List SpawnRequest
  deriving DecidableEq

namespace IndicatorMoves

/-- No indicator is touched. -/
def none : IndicatorMoves := ⟨[], []⟩

/-- The indicators stay as they are. -/
def isNone (moves : IndicatorMoves) : Bool :=
  -- A list that is empty on one side alone still moves something.
  moves.removed.isEmpty && moves.added.isEmpty

end IndicatorMoves

/-- Everything that one reading of the rules reports. -/
structure Reading where
  /-- The words were read again. -/
  reread : Bool
  /-- How the indicators are to be brought in line with the new rules. -/
  indicators : IndicatorMoves
  /-- The entities whose category has changed grants, ascending. -/
  affected : List EntityId
  /-- The entities that a change of the goal concerns, if there is one. -/
  goalAffected : Option (List EntityId)
  /-- The entities that a change of the player concerns, if there is one. -/
  playerAffected : Option (List EntityId)
  /-- The first cell of the first phrase that the reading before did not have. -/
  newPhraseCell : Option Cell
  /-- The changes of the grants. -/
  changes : List RuleChange
  /-- The time of the reading. -/
  time : Duration
  deriving DecidableEq

namespace Reading

/-- The report of a moment at which nothing is read. -/
def nothing (time : Duration) : Reading where
  -- Only the time is reported.
  reread := false
  indicators := .none
  affected := []
  goalAffected := none
  playerAffected := none
  newPhraseCell := none
  changes := []
  time

/-- Nothing was reported. -/
def isSilent (reading : Reading) : Bool :=
  -- What is affected follows from the changes, so that it need not be looked at.
  reading.changes.isEmpty && reading.indicators.isNone && reading.newPhraseCell.isNone

/-- Carries out what a reading asks for: first the removals, then the creations. -/
def carryOut (reading : Reading) (world : World) : Except Error (List EntityId × World) :=
  -- An indicator that moves is removed and created again under a new identifier.
  (world.eraseAll reading.indicators.removed).createAll reading.indicators.added

end Reading

/-- The transforms that a list of phrases states, each with the cell of the predicate that states
it, in reading order: phrase by phrase, predicate by predicate, and subject by subject. -/
def statedTransforms (phrases : List Phrase) : List (Indicator × Cell) :=
  phrases.flatMap fun phrase =>
    match phrase.relation? with
    -- A phrase without a relation states nothing.
    | none => []
    | some relation => phrase.predicates.flatMap fun predicate =>
      match predicate.word.predicate? relation with
      | some (.transform target) =>
        phrase.subjects.map fun subject => (⟨subject, target⟩, predicate.position)
      | _ => []

/-- The cell where the indicator of a transform belongs: that of the first predicate stating it. -/
def siteOf (phrases : List Phrase) (indicator : Indicator) : Option Cell :=
  -- Of several predicates that state a transform the first one read counts.
  ((statedTransforms phrases).find? (·.1 == indicator)).map Prod.snd

namespace RuleChange

/-- The transforms that the changes add. -/
def gained (changes : List RuleChange) : List Indicator :=
  -- Changes come by category, and targets within them in category order.
  changes.flatMap fun change => change.added.transforms.toList.map (Indicator.mk change.category)

/-- The transforms that the changes take away. -/
def lost (changes : List RuleChange) : List Indicator :=
  -- As for what is gained.
  changes.flatMap fun change => change.removed.transforms.toList.map (Indicator.mk change.category)

/-- The entities that a kind of change concerns: those of a category so changed, and those of one
more category. Where no change is of that kind, none are reported. -/
def concerned (changes : List RuleChange) (world : World) (relevant : RuleChange → Bool)
    (category : Category) : Option (List EntityId) :=
  -- Nobody is concerned by a change that did not happen.
  let fired := changes.filter relevant
  if fired.isEmpty then none
  else
    some <| (world.entities.filter fun entity =>
      entity.isGoverned &&
        (entity.category == category || fired.any (·.category == entity.category))).map (·.id)

end RuleChange

/-- An indicator of a transform that still holds follows the predicate that states it; one whose
transform was lost goes; a transform that was gained gets one. -/
def indicatorMoves (world : World) (phrases : List Phrase) (changes : List RuleChange) :
    IndicatorMoves :=
  let lost := RuleChange.lost changes
  -- A transform that is stated nowhere has no cell to be away from.
  let isAstray (indicator : Indicator) (position : Cell) : Bool :=
    (siteOf phrases indicator).any (· != position)
  -- An indicator may stand off its cell although its transform never changed.
  let leaves (entity : Entity) : Bool :=
    entity.indicator.any fun indicator =>
      lost.contains indicator || isAstray indicator entity.position
  let leaving := world.entities.filter leaves
  -- An indicator that stood twice is wanted once.
  let moved := (leaving.filterMap (·.indicator)).filter (!lost.contains ·)
  let wanted := RuleChange.gained changes ++ moved.eraseDups
  { removed := leaving.map (·.id)
    added := wanted.filterMap fun indicator =>
      (siteOf phrases indicator).map (SpawnRequest.overlay indicator) }

end WordTiles
