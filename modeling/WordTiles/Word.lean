import WordTiles.Category
import WordTiles.Flags.Basic

/-! Words: what is written on a tile, and what a word means in each place of a sentence. -/

namespace WordTiles

/-- The relation that a sentence states between its subjects and its predicates. -/
inductive Relation where
  | is
  | am
  | can
  deriving DecidableEq

/-- A word, in the order in which words are compared. -/
inductive Word where
  | i
  | wall
  | water
  | rock
  | lava
  | goal
  | text
  | is
  | am
  | can
  | and
  | stop
  | push
  | pull
  | hot
  | melt
  | sink
  | blue
  | green
  | grey
  | yellow
  | red
  | purple
  | climb
  | jump
  | swim
  | float
  deriving DecidableEq

/-- What a predicate word grants to the subjects of its sentence. -/
inductive Predicate where
  | property (flags : Properties)
  | ability (flags : Abilities)
  | transform (target : Category)
  deriving DecidableEq

namespace Word

/-- Every word, in order. -/
def all : List Word :=
  [i, wall, water, rock, lava, goal, text, is, am, can, and, stop, push, pull, hot, melt, sink,
    blue, green, grey, yellow, red, purple, climb, jump, swim, float]

/-- The place of a word in that order. -/
def rank (word : Word) : Nat :=
  -- The constructors stand in the order of the list.
  word.ctorIdx

instance : Ord Word := ⟨fun a b => compare a.rank b.rank⟩

/-- The name of a word. -/
def name : Word → String
  | i => "I"
  | wall => "Wall"
  | water => "Water"
  | rock => "Rock"
  | lava => "Lava"
  | goal => "Goal"
  | text => "Text"
  | is => "Is"
  | am => "Am"
  | can => "Can"
  | and => "And"
  | stop => "Stop"
  | push => "Push"
  | pull => "Pull"
  | hot => "Hot"
  | melt => "Melt"
  | sink => "Sink"
  | blue => "Blue"
  | green => "Green"
  | grey => "Grey"
  | yellow => "Yellow"
  | red => "Red"
  | purple => "Purple"
  | climb => "Climb"
  | jump => "Jump"
  | swim => "Swim"
  | float => "Float"

/-- A word as its tile shows it, in capitals. -/
def capitals (word : Word) : String := word.name.map Char.toUpper

/-- The category that a noun names; colors are nouns too. -/
def category? : Word → Option Category
  -- A color names the category of that color, so that it can be a subject.
  | i => some .i
  | wall => some .wall
  | water => some .water
  | rock => some .rock
  | lava => some .lava
  | goal => some .goal
  | text => some .text
  | blue => some .blue
  | green => some .green
  | grey => some .grey
  | yellow => some .yellow
  | red => some .red
  | purple => some .purple
  | _ => none

/-- The noun that names a category; an indicator has none. -/
def ofCategory? : Category → Option Word
  -- Indicators are made by the rules, and no sentence speaks of them.
  | .i => some i
  | .wall => some wall
  | .water => some water
  | .rock => some rock
  | .lava => some lava
  | .goal => some goal
  | .text => some text
  | .blue => some blue
  | .green => some green
  | .grey => some grey
  | .yellow => some yellow
  | .red => some red
  | .purple => some purple
  | .indicator => none

/-- The property that a word states; colors are tints as well as nouns. -/
def property? : Word → Option Properties
  -- No word spells the goal property, which comes of a transform into the goal.
  | stop => some .stop
  | push => some .push
  | pull => some .pull
  | hot => some .hot
  | melt => some .melt
  | sink => some .sink
  | blue => some .blue
  | green => some .green
  | grey => some .grey
  | yellow => some .yellow
  | red => some .red
  | purple => some .purple
  | _ => none

/-- The ability that a word states. -/
def ability? : Word → Option Abilities
  | climb => some .climb
  | jump => some .jump
  | swim => some .swim
  | float => some .float
  | _ => none

/-- The relation that a word states. -/
def relation? : Word → Option Relation
  -- Each relation has one word.
  | is => some .is
  | am => some .am
  | can => some .can
  | _ => none

/-- A sentence can start with any noun. -/
def isNoun (word : Word) : Bool :=
  -- A sentence starts with what it is about.
  word.category?.isSome

/-- The conjunction joins subjects, and joins predicates. -/
def isConjunction (word : Word) : Bool := word == and

/-- A word names a category exactly when it is that category's noun. -/
theorem category?_eq_some_iff {word : Word} {category : Category} :
    word.category? = some category ↔ ofCategory? category = some word := by
  -- Both are tables without a repetition, and they are compared entry by entry.
  cases word <;> cases category <;> decide

end Word

namespace Relation

/-- Every relation. -/
def all : List Relation := [is, am, can]

/-- The name of a relation. -/
def name : Relation → String
  | is => "Is"
  | am => "Am"
  | can => "Can"

/-- `AM` speaks of `I` alone; the other relations take any subject. -/
def allowsSubject (relation : Relation) (subject : Category) : Bool :=
  -- `AM` is the only relation that looks at its subjects.
  relation != am || subject == .i

/-- `CAN` takes abilities; the other relations take properties and nouns. -/
def allowsPredicate (relation : Relation) (word : Word) : Bool :=
  -- A word may be allowed for two reasons, as a tint and as a noun.
  match relation with
  | is | am => word.property?.isSome || word.category?.isSome
  | can => word.ability?.isSome

end Relation

namespace Word

/-- What a word grants as a predicate of a relation. Where a word is both a property and a noun, the
property counts, so that a color tints. -/
def predicate? (word : Word) (relation : Relation) : Option Predicate :=
  -- The property is tried first: under `IS`, a color is a tint before it is a transform.
  match relation with
  | .is | .am => word.property?.map .property <|> word.category?.map .transform
  | .can => word.ability?.map .ability

/-- A relation allows exactly the words that grant something under it. -/
theorem isSome_predicate? {word : Word} {relation : Relation} :
    (word.predicate? relation).isSome = relation.allowsPredicate word := by
  -- The two tables are compared word by word and relation by relation.
  cases word <;> cases relation <;> rfl

end Word

end WordTiles
