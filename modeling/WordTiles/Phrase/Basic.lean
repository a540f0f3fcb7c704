import WordTiles.Entity
import WordTiles.Hex.Step

/-! Phrases: the words of one sentence in reading order, and what the sentence grants. -/

namespace WordTiles

/-- The part that a word plays in a sentence. -/
inductive SentencePart where
  | subject
  | conjunction
  | relation
  | predicate
  deriving DecidableEq

namespace SentencePart

/-- Every part. -/
def all : List SentencePart := [subject, conjunction, relation, predicate]

/-- The name of a part. -/
def name : SentencePart → String
  | subject => "Subject"
  | conjunction => "Conjunction"
  | relation => "Relation"
  | predicate => "Predicate"

end SentencePart

/-- One word of a phrase, with the tile that it was read from. -/
structure PlacedWord where
  word : Word
  position : Cell
  entity : EntityId
  part : SentencePart
  deriving DecidableEq

/-- A path of words. -/
structure Phrase where
  /-- The words in reading order. -/
  words : List PlacedWord
  deriving DecidableEq

namespace Phrase

/-- The least number of words of a sentence: subject, relation, predicate. -/
def minWords : Nat := 3

/-- The number of words. -/
def length (phrase : Phrase) : Nat := phrase.words.length

/-- The number of steps from the first word to the last. -/
def steps (phrase : Phrase) : Nat :=
  -- A path of one word has none.
  phrase.length - 1

/-- What the phrase spells. Two phrases with one spelling state the same. -/
def spelling (phrase : Phrase) : List Word :=
  -- Positions and entities are left out, so that a sentence that moves is still the same.
  phrase.words.map (·.word)

/-- The phrase as its tiles show it. -/
def text (phrase : Phrase) : String :=
  -- The words are separated by single blanks.
  String.intercalate " " (phrase.spelling.map Word.capitals)

/-- Phrases are compared by what they spell. -/
instance : Ord Phrase := ⟨fun a b => compare a.spelling b.spelling⟩

/-- The entities in reading order. -/
def entities (phrase : Phrase) : List EntityId := phrase.words.map (·.entity)

/-- The cell of the first word, which an empty phrase lacks. -/
def firstCell (phrase : Phrase) : Except Error Cell :=
  -- A path that a search has found has a first word; an empty one is a fault.
  match phrase.words with
  | first :: _ => .ok first.position
  | [] => .error .emptyPhrase

/-- The direction of the first step, if there is one. -/
def heading (phrase : Phrase) : Except Error (Option Direction) :=
  -- The first step gives the direction of the whole path up to its first bend.
  match phrase.words with
  | first :: second :: _ => first.position.headingTo second.position
  | _ => .ok none

/-- The relation of the sentence: what its first relation word states. -/
def relation? (phrase : Phrase) : Option Relation := do
  -- The relation stands once in a sentence, and what follows it does not matter here.
  let word ← phrase.words.find? (·.part == .relation)
  word.word.relation?

/-- The categories that the subjects name, in reading order. -/
def subjects (phrase : Phrase) : List Category :=
  -- Subjects are nouns, so that none of them is lost by reading its category.
  (phrase.words.filter (·.part == .subject)).filterMap (·.word.category?)

/-- The predicates, in reading order. -/
def predicates (phrase : Phrase) : List PlacedWord :=
  phrase.words.filter (·.part == .predicate)

/-- Every statement of the sentence: each predicate of each subject, subject by subject. -/
def statements (phrase : Phrase) : List (Category × Predicate) :=
  -- A sentence without a relation states nothing.
  match phrase.relation? with
  | none => []
  | some relation => phrase.subjects.flatMap fun subject =>
    phrase.predicates.filterMap fun predicate =>
      -- A word that grants nothing under the relation is passed over.
      (predicate.word.predicate? relation).map (subject, ·)

/-- Each word of the list is adjacent to the next. -/
def adjacentWords : List PlacedWord → Except Error Bool
  -- The first pair that is not adjacent ends the check.
  | first :: second :: rest => do
    if ← first.position.isNeighborOf second.position then adjacentWords (second :: rest)
    else return false
  | _ => .ok true

/-- The path never jumps. -/
def isUnbroken (phrase : Phrase) : Except Error Bool :=
  adjacentWords phrase.words

end Phrase

end WordTiles
