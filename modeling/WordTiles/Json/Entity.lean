import WordTiles.Config
import WordTiles.Flags.Text
import WordTiles.Hex.Step
import WordTiles.Json.Codec

/-! JSON for the vocabulary, the entities and the configuration. -/

namespace WordTiles.Codec

instance : Codec Direction := byName Direction.all Direction.name

instance : Codec Category := byName Category.all Category.name

instance : Codec Word := byName Word.all Word.name

instance : Codec Relation := byName Relation.all Relation.name

instance : Codec RemovalCause := byName RemovalCause.all RemovalCause.name

/-- Coordinates are written as numbers. -/
instance : Codec Int32 where
  -- Numbers out of range are refused.
  write value := .int value.toInt
  read?
    | .int value => Coordinate.ofInt? value
    | _ => none

instance : Codec Cell where
  write cell := .object [("q", write cell.q), ("r", write cell.r)]
  read? json := do
    let [q, r] ← json.fields? ["q", "r"] | none
    return ⟨← required q, ← required r⟩

/-- A flag set is written as its text. -/
instance {kind : FlagKind} : Codec (Flags kind) where
  write flags := .text flags.text
  read?
    | .text text => Flags.ofText? text
    | _ => none

instance : Codec Predicate where
  -- The kind of a predicate is the only field.
  write
    | .property flags => .object [("Property", write flags)]
    | .ability flags => .object [("Ability", write flags)]
    | .transform target => .object [("Transform", write target)]
  read?
    | .object [("Property", json)] => (read? json).map .property
    | .object [("Ability", json)] => (read? json).map .ability
    | .object [("Transform", json)] => (read? json).map .transform
    | _ => none

instance : Codec EntityId where
  -- An identifier is written as its number.
  write id := write id.val
  read? json := (read? json).map EntityId.mk

instance : Codec PhraseId where
  -- So is the identifier of a phrase.
  write id := write id.val
  read? json := (read? json).map PhraseId.mk

instance : Codec Indicator where
  write indicator :=
    .object [("subject", write indicator.subject), ("target", write indicator.target)]
  read? json := do
    let [subject, target] ← json.fields? ["subject", "target"] | none
    return ⟨← required subject, ← required target⟩

instance : Codec Entity where
  -- Word and indicator are written as null where they are missing, and may be left out.
  write entity :=
    .object [("id", write entity.id), ("position", write entity.position),
      ("category", write entity.category), ("word", write entity.word),
      ("indicator", write entity.indicator), ("properties", write entity.properties),
      ("abilities", write entity.abilities)]
  read? json := do
    let [id, position, category, word, indicator, properties, abilities] ←
      json.fields? ["id", "position", "category", "word", "indicator", "properties", "abilities"]
      | none
    return {
      id := ← required id
      position := ← required position
      category := ← required category
      word := ← optional word
      indicator := ← optional indicator
      properties := ← required properties
      abilities := ← required abilities }

instance : Codec SpawnRequest where
  -- Without an identifier and abilities, which it does not have yet.
  write spawn :=
    .object [("position", write spawn.position), ("category", write spawn.category),
      ("word", write spawn.word), ("indicator", write spawn.indicator),
      ("properties", write spawn.properties)]
  read? json := do
    let [position, category, word, indicator, properties] ←
      json.fields? ["position", "category", "word", "indicator", "properties"] | none
    return {
      position := ← required position
      category := ← required category
      word := ← optional word
      indicator := ← optional indicator
      properties := ← required properties }

instance : Codec DestructionRule where
  write rule :=
    .object [("destroyer", write rule.destroyer), ("victim", write rule.victim),
      ("immune", write rule.immune), ("reason", write rule.cause),
      ("consumes_destroyer", write rule.spendsDestroyers)]
  read? json := do
    let [destroyer, victim, immune, cause, spendsDestroyers] ←
      json.fields? ["destroyer", "victim", "immune", "reason", "consumes_destroyer"] | none
    return {
      destroyer := ← required destroyer
      victim := ← required victim
      immune := ← required immune
      cause := ← required cause
      spendsDestroyers := ← required spendsDestroyers }

instance : Codec Config where
  -- The settings are not checked here: an engine refuses those that it cannot run with.
  write config :=
    .object [("max_settle_iterations", write config.maxRounds),
      ("bend_at_and", write config.mayBend),
      ("subject_chaining", write config.joinsSubjects), ("collateral", write config.destruction),
      ("goal_category", write config.goal),
      ("player_category", write config.player)]
  read? json := do
    let [maxRounds, mayBend, joinsSubjects, destruction, goal, player] ←
      json.fields? ["max_settle_iterations", "bend_at_and", "subject_chaining", "collateral",
        "goal_category", "player_category"] | none
    return {
      maxRounds := ← required maxRounds
      mayBend := ← required mayBend
      joinsSubjects := ← required joinsSubjects
      destruction := ← required destruction
      goal := ← required goal
      player := ← required player }

end WordTiles.Codec
