import WordTiles.Phrase.Marks
import WordTiles.Sentence.Agenda
import WordTiles.Sentence.Prune
import WordTiles.World.Basic

/-! The search for sentences: from a board to its phrases and to the marks along their paths. -/

namespace WordTiles

/-- What a search finds. -/
structure Findings where
  /-- The phrases with distinct spellings, in the order of discovery. The place of a phrase is its
  identifier. -/
  phrases : List Phrase
  /-- The marks of every path, under the identifier of the phrase with the same spelling. -/
  marks : MarkGrid
  deriving DecidableEq

namespace Findings

/-- Nothing has been found. -/
def empty : Findings :=
  -- Before the first reading there is neither a phrase nor a mark.
  ⟨[], .empty⟩

/-- The phrase with an identifier. -/
def phrase? (findings : Findings) (id : PhraseId) : Option Phrase :=
  -- An identifier is a place in the list.
  findings.phrases[id.val.toNat]?

/-- Some phrase spells these words. -/
def spells (findings : Findings) (words : List Word) : Bool :=
  -- Where the words stand does not matter.
  findings.phrases.any fun phrase => phrase.spelling == words

/-- Adds a path. Its spelling is a new phrase unless it has been found before. -/
def addPath (findings : Findings) (path : Phrase) : Except Error Findings := do
  match findings.phrases.findIdx? fun phrase => phrase.spelling == path.spelling with
  -- The spelling keeps its identifier, and the path only adds marks.
  | some place =>
    return { findings with marks := ← findings.marks.insertPath ⟨.ofNat place⟩ path }
  -- The next identifier is the number of phrases found so far.
  | none =>
    let id : PhraseId := ⟨.ofNat findings.phrases.length⟩
    return { phrases := findings.phrases ++ [path], marks := ← findings.marks.insertPath id path }

/-- Fails unless a phrase has the length of a sentence and never jumps. -/
def checkPhrase (phrase : Phrase) : Except Error Unit := do
  -- The length is looked at before the path is.
  if phrase.length < Phrase.minWords then
    throw (.shortPhrase phrase.text phrase.length Phrase.minWords)
  if !(← phrase.isUnbroken) then
    throw (.brokenPhrase phrase.text)

/-- Fails unless every phrase is well formed and every mark belongs to a phrase. -/
def check (findings : Findings) : Except Error Unit := do
  -- Phrases are checked in the order of their identifiers, then the marks.
  findings.phrases.forM checkPhrase
  findings.marks.check findings.phrases.length

end Findings

/-- Searches a board: reads every sentence on it and keeps those that are no part and no reversal of
another. -/
def Board.search (board : Board) (config : Config) : Except Error Findings := do
  -- Tails are dropped first, and only what is left competes for the reading of its words.
  let paths ← Prune.dropReversals (Prune.dropTails (← Agenda.sentences board config))
  paths.foldlM Findings.addPath .empty

namespace World

/-- The words of a world. -/
def board (world : World) : Board :=
  -- Whatever bears no word is invisible to a sentence.
  { world.toGrid with
    tiles := fun cell => (world.occupants cell).filterMap fun entity =>
      entity.word.map (Tile.mk entity.id) }

/-- Searches the words of a world. -/
def search (world : World) (config : Config) : Except Error Findings :=
  -- The positions of other entities do not matter.
  world.board.search config

end World

end WordTiles
