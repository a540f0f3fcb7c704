import WordTiles.Json.Phrase
import WordTiles.Json.Rules
import WordTiles.Proofs.Flags.Spelling
import WordTiles.Proofs.Hex.Grid
import WordTiles.Proofs.Rules.Rulebook

/-! Round trips: whatever value is written as JSON, reading what was written gives that value back,
with every field and every flag. -/

namespace WordTiles

namespace Codec

/-- Every value of a type is read back from what is written for it. -/
class ReadsBack (α : Type) [Codec α] : Prop where
  read?_write (value : α) : read? (write value) = some value

/-- What is written for a value is never null, which stands for a missing one. -/
class NeverNull (α : Type) [Codec α] : Prop where
  write_ne_null (value : α) : write value ≠ .null

export ReadsBack (read?_write)

attribute [simp] read?_write

instance : ReadsBack Bool := ⟨fun _ => rfl⟩

/-- A number below a bound is read back. -/
theorem readBelow_of_lt {bound value : Nat} (below : value < bound) :
    readBelow bound (.int value) = some value := by
  -- A natural number is not negative.
  have inRange : 0 ≤ (value : Int) ∧ (value : Int) < bound := by omega
  rw [readBelow, if_pos inRange, Int.toNat_natCast]

instance : ReadsBack UInt32 where
  read?_write value := by
    change (readBelow UInt32.size (.int value.toNat)).map UInt32.ofNat = some value
    rw [readBelow_of_lt value.toNat_lt_size, Option.map_some, UInt32.ofNat_toNat]

instance : ReadsBack UInt64 where
  read?_write value := by
    change (readBelow UInt64.size (.int value.toNat)).map UInt64.ofNat = some value
    rw [readBelow_of_lt value.toNat_lt_size, Option.map_some, UInt64.ofNat_toNat]

instance {α : Type} [Codec α] [ReadsBack α] [NeverNull α] : ReadsBack (Option α) where
  read?_write
    | none => rfl
    | some value => by
      -- Only null is read as a missing value.
      have filled := NeverNull.write_ne_null value
      have read := read?_write value
      change (read? (write value) : Option (Option α)) = some (some value)
      generalize write value = json at filled read
      cases json with
      | null => contradiction
      | _ => exact congrArg (Option.map some) read

instance {α : Type} [Codec α] [ReadsBack α] : ReadsBack (List α) where
  read?_write values := by
    change (values.map write).mapM read? = some values
    induction values with
    | nil => rfl
    | cons first rest ih => simp [List.mapM_cons, ih]

instance {α : Type} [Codec α] : NeverNull (List α) := ⟨nofun⟩

instance : ReadsBack Direction := ⟨fun direction => by cases direction <;> rfl⟩

instance : ReadsBack Category := ⟨fun category => by cases category <;> rfl⟩

instance : ReadsBack Word := ⟨fun word => by cases word <;> rfl⟩

instance : NeverNull Word := ⟨nofun⟩

instance : ReadsBack Relation := ⟨fun relation => by cases relation <;> rfl⟩

instance : ReadsBack RemovalCause := ⟨fun cause => by cases cause <;> rfl⟩

instance : ReadsBack SentencePart := ⟨fun part => by cases part <;> rfl⟩

instance : ReadsBack PathRole := ⟨fun role => by cases role <;> rfl⟩

instance : ReadsBack Int32 := ⟨fun _ => Coordinate.ofInt?_eq_some_iff.mpr rfl⟩

instance {kind : FlagKind} : ReadsBack (Flags kind) := ⟨Flags.ofText?_text⟩

instance : ReadsBack Cell where
  read?_write cell := by
    -- As for every record, the fields are found under their names, and each of them is read back.
    have fieldwise (q r : Json) :
        read? (.object [("q", q), ("r", r)]) = (do
            return ⟨← read? q, ← read? r⟩ : Option Cell) := rfl
    exact (fieldwise ..).trans (by simp)

instance : NeverNull Cell := ⟨nofun⟩

instance : ReadsBack Predicate where
  read?_write
    | .property flags => congrArg (Option.map Predicate.property) (read?_write flags)
    | .ability flags => congrArg (Option.map Predicate.ability) (read?_write flags)
    | .transform target => congrArg (Option.map Predicate.transform) (read?_write target)

instance : ReadsBack EntityId := ⟨fun id => congrArg (Option.map EntityId.mk) (read?_write id.val)⟩

instance : ReadsBack PhraseId := ⟨fun id => congrArg (Option.map PhraseId.mk) (read?_write id.val)⟩

instance : ReadsBack Indicator where
  read?_write indicator := by
    have fieldwise (subject target : Json) :
        read? (.object [("subject", subject), ("target", target)]) = (do
            return ⟨← read? subject, ← read? target⟩ : Option Indicator) := rfl
    exact (fieldwise ..).trans (by simp)

instance : NeverNull Indicator := ⟨nofun⟩

instance : ReadsBack Entity where
  read?_write entity := by
    have fieldwise (id position category word indicator properties abilities : Json) :
        read? (.object [("id", id), ("position", position), ("category", category), ("word", word),
          ("indicator", indicator), ("properties", properties), ("abilities", abilities)]) = (do
            return ⟨← read? id, ← read? position, ← read? category, ← read? word, ← read? indicator,
              ← read? properties, ← read? abilities⟩ : Option Entity) := rfl
    exact (fieldwise ..).trans (by simp)

instance : ReadsBack SpawnRequest where
  read?_write spawn := by
    have fieldwise (position category word indicator properties : Json) :
        read? (.object [("position", position), ("category", category), ("word", word),
          ("indicator", indicator), ("properties", properties)]) = (do
            return ⟨← read? position, ← read? category, ← read? word, ← read? indicator,
              ← read? properties⟩ : Option SpawnRequest) := rfl
    exact (fieldwise ..).trans (by simp)

instance : ReadsBack DestructionRule where
  read?_write rule := by
    have fieldwise (destroyer victim immune cause spendsDestroyers : Json) :
        read? (.object [("destroyer", destroyer), ("victim", victim), ("immune", immune),
          ("reason", cause), ("consumes_destroyer", spendsDestroyers)]) = (do
            return ⟨← read? destroyer, ← read? victim, ← read? immune, ← read? cause,
              ← read? spendsDestroyers⟩ : Option DestructionRule) := rfl
    exact (fieldwise ..).trans (by simp)

instance : ReadsBack Config where
  read?_write config := by
    have fieldwise (maxRounds mayBend joinsSubjects destruction goal player : Json) :
        read? (.object [("max_settle_iterations", maxRounds), ("bend_at_and", mayBend),
          ("subject_chaining", joinsSubjects), ("collateral", destruction), ("goal_category", goal),
          ("player_category", player)]) = (do
            return ⟨← read? maxRounds, ← read? mayBend, ← read? joinsSubjects, ← read? destruction,
              ← read? goal, ← read? player⟩ : Option Config) := rfl
    exact (fieldwise ..).trans (by simp)

instance : ReadsBack PlacedWord where
  read?_write word := by
    have fieldwise (word position entity part : Json) :
        read? (.object [("word", word), ("position", position), ("entity", entity),
          ("role", part)]) = (do
            return ⟨← read? word, ← read? position, ← read? entity,
              ← read? part⟩ : Option PlacedWord) := rfl
    exact (fieldwise ..).trans (by simp)

instance : ReadsBack Phrase where
  read?_write phrase := by
    have fieldwise (words : Json) :
        read? (.object [("words", words)]) = (do
            return ⟨← read? words⟩ : Option Phrase) := rfl
    exact (fieldwise ..).trans (by simp)

instance : ReadsBack Mark where
  read?_write mark := by
    have fieldwise (phrase direction role : Json) :
        read? (.object [("phrase", phrase), ("direction", direction), ("role", role)]) = (do
            return ⟨← read? phrase, ← read? direction, ← read? role⟩ : Option Mark) := rfl
    exact (fieldwise ..).trans (by simp)

instance : ReadsBack CategorySet where
  read?_write categories := by
    change (read? (write categories.toList)).map CategorySet.ofList = some categories
    rw [read?_write, Option.map_some, Option.some.injEq]
    exact CategorySet.ext fun category => CategorySet.mem_ofList

instance : ReadsBack Grants where
  read?_write grants := by
    have fieldwise (properties abilities transforms : Json) :
        read? (.object [("properties", properties), ("abilities", abilities),
          ("transforms", transforms)]) = (do
            return ⟨← read? properties, ← read? abilities,
              ← read? transforms⟩ : Option Grants) := rfl
    exact (fieldwise ..).trans (by simp)

instance : ReadsBack RuleChange where
  read?_write change := by
    have fieldwise (category added removed : Json) :
        read? (.object [("category", category), ("added", added), ("removed", removed)]) = (do
            return ⟨← read? category, ← read? added, ← read? removed⟩ : Option RuleChange) := rfl
    exact (fieldwise ..).trans (by simp)

/-- A row of a rulebook is read back. -/
theorem readRow_writeRow (row : Category × Grants) : readRow (writeRow row) = some row := by
  -- A row is keyed by the name of its category, and names are read back.
  have named : named? Category.all Category.name row.1.name = some row.1 := read?_write row.1
  simp [readRow, writeRow, named]

instance : ReadsBack Rulebook where
  read?_write rulebook := by
    have read : (rulebook.rows.map writeRow).mapM readRow = some rulebook.rows := by
      induction rulebook.rows with
      | nil => rfl
      | cons first rest ih => simp [List.mapM_cons, readRow_writeRow, ih]
    change (do
      let rows ← (rulebook.rows.map writeRow).mapM readRow
      return .ofFunction fun category => (rows.find? (·.1 == category)).map Prod.snd) =
        some rulebook
    -- Each row is found again under its category.
    rw [read]
    exact congrArg some (Rulebook.ext_row? fun category => Rulebook.row?_ofFunction _ category)

instance : ReadsBack Removal where
  read?_write removal := by
    have fieldwise (id cause : Json) :
        read? (.object [("id", id), ("reason", cause)]) = (do
            return ⟨← read? id, ← read? cause⟩ : Option Removal) := rfl
    exact (fieldwise ..).trans (by simp)

instance : ReadsBack Replacement where
  read?_write replacement := by
    have fieldwise (old spawns : Json) :
        read? (.object [("old", old), ("spawns", spawns)]) = (do
            return ⟨← read? old, ← read? spawns⟩ : Option Replacement) := rfl
    exact (fieldwise ..).trans (by simp)

instance : ReadsBack OutcomeStats where
  read?_write stats := by
    have fieldwise (equipped cellsSearched removals replacements : Json) :
        read? (.object [("reconciled", equipped), ("cells_scanned", cellsSearched),
          ("removals", removals), ("replacements", replacements)]) = (do
            return ⟨← read? equipped, ← read? cellsSearched, ← read? removals,
              ← read? replacements⟩ : Option OutcomeStats) := rfl
    exact (fieldwise ..).trans (by simp)

instance : ReadsBack Duration where
  read?_write duration := by
    have seconds : duration.seconds < UInt64.size :=
      Nat.div_lt_of_lt_mul (Nat.mul_comm .. ▸ duration.inRange)
    have subsecond : duration.subsecond < nanosecondsPerSecond := Nat.mod_lt _ (by decide)
    have whole : duration.seconds * nanosecondsPerSecond + duration.subsecond =
        duration.nanoseconds := Nat.div_add_mod' _ _
    have fieldwise (seconds nanoseconds : Json) :
        read? (.object [("secs", seconds), ("nanos", nanoseconds)]) = (do
          Duration.ofParts? (← readBelow UInt64.size seconds)
            (← readBelow UInt32.size nanoseconds) : Option Duration) := rfl
    refine (fieldwise ..).trans ?_
    rw [readBelow_of_lt seconds, readBelow_of_lt (Nat.lt_trans subsecond (by decide)),
      Option.bind_eq_bind, Option.bind_some, Option.bind_some, Duration.ofParts?, whole,
      Duration.ofNanoseconds?, dif_pos duration.inRange]

instance : ReadsBack Outcome where
  read?_write outcome := by
    have fieldwise (removals replacements changesWorld stats time : Json) :
        read? (.object [("removals", removals), ("replacements", replacements),
          ("state_changed", changesWorld), ("stats", stats), ("at", time)]) = (do
            return ⟨← read? removals, ← read? replacements, ← read? changesWorld, ← read? stats,
              ← read? time⟩ : Option Outcome) := rfl
    exact (fieldwise ..).trans (by simp)

instance : ReadsBack Reading where
  read?_write reading := by
    have fieldwise (reread added removed affected goalAffected playerAffected newPhraseCell changes
        time : Json) :
        read? (.object [("recomputed", reread), ("added_entities", added),
          ("removed_entities", removed), ("updated", affected), ("goal_changed", goalAffected),
          ("i_changed", playerAffected), ("new_phrase_at", newPhraseCell), ("changes", changes),
          ("at", time)]) = (do
            let added ← read? added
            let removed ← read? removed
            return ⟨← read? reread, { removed, added }, ← read? affected, ← read? goalAffected,
              ← read? playerAffected, ← read? newPhraseCell, ← read? changes,
              ← read? time⟩ : Option Reading) := rfl
    exact (fieldwise ..).trans (by simp)

instance : ReadsBack TickRecord where
  read?_write record := by
    have fieldwise (rounds capped readings outcomes spawned : Json) :
        read? (.object [("iterations", rounds), ("cap_hit", capped), ("events", readings),
          ("outcomes", outcomes), ("spawned", spawned)]) = (do
            return ⟨← read? rounds, ← read? capped, ← read? readings, ← read? outcomes,
              ← read? spawned⟩ : Option TickRecord) := rfl
    exact (fieldwise ..).trans (by simp)

/-- Reading what is written for a value gives the value back, whatever the value is: for every type
that is written, a set with flags that have no name and a phrase with the places of its words
included. -/
theorem readsBack_all :
    ReadsBack Cell ∧ ReadsBack Direction ∧ ReadsBack Category ∧ ReadsBack Word ∧
      ReadsBack Relation ∧ ReadsBack Properties ∧ ReadsBack Abilities ∧ ReadsBack Predicate ∧
      ReadsBack EntityId ∧ ReadsBack Indicator ∧ ReadsBack Entity ∧ ReadsBack SpawnRequest ∧
      ReadsBack DestructionRule ∧ ReadsBack Config ∧ ReadsBack PhraseId ∧ ReadsBack SentencePart ∧
      ReadsBack PlacedWord ∧ ReadsBack Phrase ∧ ReadsBack PathRole ∧ ReadsBack Mark ∧
      ReadsBack Grants ∧ ReadsBack RuleChange ∧ ReadsBack Rulebook ∧ ReadsBack RemovalCause ∧
      ReadsBack Removal ∧ ReadsBack Replacement ∧ ReadsBack OutcomeStats ∧ ReadsBack Outcome ∧
      ReadsBack Reading ∧ ReadsBack TickRecord := by
  -- Every type has its own instance, each built from those of its parts.
  and_intros <;> infer_instance
end Codec

end WordTiles
