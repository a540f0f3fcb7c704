import WordTiles.Json.Entity
import WordTiles.Rules.Engine

/-! JSON for the rules, their changes and everything that a tick reports. -/

namespace WordTiles.Codec

/-- A set of categories is written in category order and read in any. -/
instance : Codec CategorySet where
  -- Members are written in order, and read in any order and repeated.
  write categories := write categories.toList
  read? json := (read? json).map CategorySet.ofList

instance : Codec Grants where
  write grants :=
    .object [("properties", write grants.properties), ("abilities", write grants.abilities),
      ("transforms", write grants.transforms)]
  read? json := do
    let [properties, abilities, transforms] ←
      json.fields? ["properties", "abilities", "transforms"] | none
    return ⟨← required properties, ← required abilities, ← required transforms⟩

instance : Codec RuleChange where
  write change :=
    .object [("category", write change.category), ("added", write change.added),
      ("removed", write change.removed)]
  read? json := do
    let [category, added, removed] ← json.fields? ["category", "added", "removed"] | none
    return ⟨← required category, ← required added, ← required removed⟩

/-- Reads the rows of a rulebook, each under the name of its category. -/
def readRow (row : String × Json) : Option (Category × Grants) := do
  let category ← named? Category.all Category.name row.1
  return (category, ← read? row.2)

/-- Writes a row of a rulebook under the name of its category. -/
def writeRow (row : Category × Grants) : String × Json :=
  (row.1.name, write row.2)

instance : Codec Rulebook where
  -- Rows are the fields of one object, each under its category.
  write rulebook := .object [("grants", .object (rulebook.rows.map writeRow))]
  read? json := do
    let [some (.object rows)] ← json.fields? ["grants"] | none
    let rows ← rows.mapM readRow
    return .ofFunction fun category => (rows.find? (·.1 == category)).map Prod.snd

instance : Codec Removal where
  write removal := .object [("id", write removal.id), ("reason", write removal.cause)]
  read? json := do
    let [id, cause] ← json.fields? ["id", "reason"] | none
    return ⟨← required id, ← required cause⟩

instance : Codec Replacement where
  write replacement :=
    .object [("old", write replacement.old), ("spawns", write replacement.spawns)]
  read? json := do
    let [old, spawns] ← json.fields? ["old", "spawns"] | none
    return ⟨← required old, ← required spawns⟩

instance : Codec OutcomeStats where
  write stats :=
    .object [("reconciled", write stats.equipped), ("cells_scanned", write stats.cellsSearched),
      ("removals", write stats.removals), ("replacements", write stats.replacements)]
  read? json := do
    let [equipped, cellsSearched, removals, replacements] ←
      json.fields? ["reconciled", "cells_scanned", "removals", "replacements"] | none
    return ⟨← required equipped, ← required cellsSearched, ← required removals,
      ← required replacements⟩

/-- A duration is written as its whole seconds and the nanoseconds beyond them, and has no other
fields. Full seconds among the nanoseconds are carried over. -/
instance : Codec Duration where
  write duration :=
    .object [("secs", .int duration.seconds), ("nanos", .int duration.subsecond)]
  read? json := do
    let ofParts (seconds nanoseconds : Json) : Option Duration := do
      Duration.ofParts? (← readBelow UInt64.size seconds) (← readBelow UInt32.size nanoseconds)
    match json with
    | .list [seconds, nanoseconds] => ofParts seconds nanoseconds
    | .object [("secs", seconds), ("nanos", nanoseconds)]
    | .object [("nanos", nanoseconds), ("secs", seconds)] => ofParts seconds nanoseconds
    | _ => none

instance : Codec Outcome where
  write outcome :=
    .object [("removals", write outcome.removals), ("replacements", write outcome.replacements),
      ("state_changed", write outcome.changesWorld), ("stats", write outcome.stats),
      ("at", write outcome.time)]
  read? json := do
    let [removals, replacements, changesWorld, stats, time] ←
      json.fields? ["removals", "replacements", "state_changed", "stats", "at"] | none
    return {
      removals := ← required removals
      replacements := ← required replacements
      changesWorld := ← required changesWorld
      stats := ← required stats
      time := ← required time }

instance : Codec Reading where
  -- Indicators to create and indicators to remove have a field each.
  write reading :=
    .object [("recomputed", write reading.reread),
      ("added_entities", write reading.indicators.added),
      ("removed_entities", write reading.indicators.removed), ("updated", write reading.affected),
      ("goal_changed", write reading.goalAffected), ("i_changed", write reading.playerAffected),
      ("new_phrase_at", write reading.newPhraseCell), ("changes", write reading.changes),
      ("at", write reading.time)]
  read? json := do
    let [reread, added, removed, affected, goalAffected, playerAffected, newPhraseCell, changes,
        time] ←
      json.fields? ["recomputed", "added_entities", "removed_entities", "updated", "goal_changed",
        "i_changed", "new_phrase_at", "changes", "at"] | none
    let added ← required added
    let removed ← required removed
    return {
      reread := ← required reread
      indicators := { removed, added }
      affected := ← required affected
      goalAffected := ← optional goalAffected
      playerAffected := ← optional playerAffected
      newPhraseCell := ← optional newPhraseCell
      changes := ← required changes
      time := ← required time }

instance : Codec TickRecord where
  -- Removals and affected entities are not written again, since the lists hold them.
  write record :=
    .object [("iterations", write record.rounds), ("cap_hit", write record.capped),
      ("events", write record.readings), ("outcomes", write record.outcomes),
      ("spawned", write record.spawned)]
  read? json := do
    let [rounds, capped, readings, outcomes, spawned] ←
      json.fields? ["iterations", "cap_hit", "events", "outcomes", "spawned"] | none
    return {
      rounds := ← required rounds
      capped := ← required capped
      readings := ← required readings
      outcomes := ← required outcomes
      spawned := ← required spawned }

end WordTiles.Codec
