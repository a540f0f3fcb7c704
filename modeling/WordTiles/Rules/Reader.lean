import WordTiles.Rules.Reading

/-! The reader of rules: it reads the words of a world again whenever it has been told of a change,
and reports what the new rules mean for the entities. -/

namespace WordTiles

/-- A reader of rules. Its rulebook, its findings and the spellings that it knows are held side by
side, so that a reading has to replace all three of them. -/
structure RuleReader where
  /-- The world may have changed since the latest reading. -/
  isStale : Bool
  /-- The rules of the latest reading. -/
  rulebook : Rulebook
  /-- What the latest reading found. -/
  findings : Findings
  /-- What the phrases of the latest reading spell. -/
  known : List (List Word)
  /-- The number of readings so far. -/
  readingCount : UInt64
  /-- The time that has passed in all updates. -/
  clock : Duration
  deriving DecidableEq

namespace RuleReader

/-- A reader that has read nothing; its first update reads the world. -/
def initial : RuleReader :=
  -- Being stale from the start makes the first update a reading.
  ⟨true, .empty, .empty, [], 0, .zero⟩

/-- Tells the reader of a change, so that its next update reads the world again. -/
def signal (reader : RuleReader) : RuleReader :=
  -- Whatever changed, nothing is read before the next update.
  { reader with isStale := true }

/-- The latest reading found a phrase with this spelling. -/
def knows (reader : RuleReader) (phrase : Phrase) : Bool :=
  -- The spelling decides: a sentence that has moved is known.
  reader.known.contains phrase.spelling

/-- What a reading reports when it replaces what the reader holds by new findings. -/
def readingOf (reader : RuleReader) (world : World) (config : Config) (findings : Findings)
    (time : Duration) : Except Error Reading := do
  let newPhraseCell ←
    -- Phrases are listed in the order of discovery, so the first new one is the one to show.
    match findings.phrases.find? (!reader.knows ·) with
    | some phrase => some <$> phrase.firstCell
    | none => pure none
  let changes := reader.rulebook.changesTo (.ofPhrases findings.phrases)
  return {
    reread := true
    indicators := indicatorMoves world findings.phrases changes
    affected := (world.entities.filter fun entity =>
      entity.isGoverned && changes.any (·.category == entity.category)).map (·.id)
    -- A change of a terminal transform concerns the goal whatever category it is about.
    goalAffected := RuleChange.concerned changes world
      (fun change => change.category == config.goal || change.reachesTerminal)
      config.goal
    playerAffected := RuleChange.concerned changes world
      (fun change => change.category == config.player ||
        change.mentionsTarget config.player)
      config.player
    newPhraseCell, changes, time }

/-- Lets time pass, and reads the world if it may have changed. -/
def advance (reader : RuleReader) (world : World) (config : Config) (elapsed : Duration) :
    Except Error (Reading × RuleReader) := do
  let clock ← reader.clock.add elapsed
  -- Without a signal the world is not even looked at.
  if !reader.isStale then
    return (.nothing clock, { reader with clock })
  let findings ← world.search config
  findings.check
  -- The report compares with what the reader held, so it comes before the replacement.
  let reading ← reader.readingOf world config findings clock
  return (reading,
    { isStale := false
      rulebook := .ofPhrases findings.phrases
      findings
      known := findings.phrases.map Phrase.spelling
      readingCount := reader.readingCount + 1
      clock })

end RuleReader

end WordTiles
