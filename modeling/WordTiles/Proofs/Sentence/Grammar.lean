import Mathlib.Data.List.Chain
import WordTiles.Config
import WordTiles.Phrase.Basic
import WordTiles.Proofs.Hex.Grid

/-! What a sentence is, apart from any search for it: blocks of subjects and predicates around a
relation, along a path that is straight up to the first predicate and may bend at conjunctions. -/

namespace WordTiles

namespace PlacedWord

/-- One step in a direction leads from a word to the next. -/
def LeadsTo (direction : Direction) (word next : PlacedWord) : Prop :=
  -- The step has to stay in range, as every step on a grid does.
  word.position.neighbor direction = .ok next.position

/-- The place that a word takes in a sentence: its cell, in its part. -/
def place (word : PlacedWord) : Cell × SentencePart :=
  -- One cell can serve as two places, once in each of two parts.
  (word.position, word.part)

/-- The word is a conjunction and is read as one. -/
def IsJoint (word : PlacedWord) : Prop :=
  -- A word `AND` that is read in no other part joins what stands around it.
  word.part = .conjunction ∧ word.word = .and

end PlacedWord

/-- The word is a noun that the relation allows as a subject. -/
def Relation.admits (relation : Relation) (word : Word) : Bool :=
  -- A subject has to name a category, which the relation may then refuse.
  word.category?.any relation.allowsSubject

namespace Sentence

/-- Words of one part that pass a test, each joined to the next by a conjunction. -/
inductive Joined (part : SentencePart) (test : Word → Bool) : List PlacedWord → Prop where
  | single {word : PlacedWord} (inPart : word.part = part) (passes : test word.word = true) :
      Joined part test [word]
  | join {word joint : PlacedWord} {rest : List PlacedWord} (inPart : word.part = part)
      (passes : test word.word = true) (isJoint : joint.IsJoint) (joined : Joined part test rest) :
      Joined part test (word :: joint :: rest)

/-- A path that has reached a conjunction may leave it in the same direction, or, if bends are
allowed, in any direction but straight back. -/
def MayTurn (config : Config) (heading turned : Direction) : Prop :=
  -- Straight on is allowed whatever the configuration says.
  turned = heading ∨ config.mayBend = true ∧ turned ≠ heading.opposite

/-- The path of joined predicates, from the direction in which the first is reached to that in which
the last is: every conjunction is reached straight on, and only the step out of it may turn. -/
inductive Winds (config : Config) : Direction → List PlacedWord → Direction → Prop where
  | stay {heading : Direction} {word : PlacedWord} : Winds config heading [word] heading
  | turn {heading turned final : Direction} {word joint next : PlacedWord} {rest : List PlacedWord}
      (reached : word.LeadsTo heading joint) (mayTurn : MayTurn config heading turned)
      (left : joint.LeadsTo turned next) (winds : Winds config turned (next :: rest) final) :
      Winds config heading (word :: joint :: next :: rest) final

/-- A sentence taken apart. -/
structure Parse where
  subjects : List PlacedWord
  /-- The relation word. -/
  verb : PlacedWord
  predicates : List PlacedWord
  relation : Relation
  /-- The direction from the first subject to the first predicate. -/
  heading : Direction
  /-- The direction in which the last predicate is reached. -/
  final : Direction

namespace Parse

/-- The words of a sentence in reading order. -/
def words (parse : Parse) : List PlacedWord :=
  -- The verb stands between its subjects and its predicates.
  parse.subjects ++ parse.verb :: parse.predicates

/-- The parts are those of a sentence over the words that show: the blocks fit the relation, the
path is straight up to the first predicate and winds from there, and no place is taken twice. -/
structure Valid (shown : PlacedWord → Prop) (config : Config) (parse : Parse) : Prop where
  shown : ∀ word ∈ parse.words, shown word
  distinct : (parse.words.map PlacedWord.place).Nodup
  subjects : Joined .subject parse.relation.admits parse.subjects
  /-- Only a configuration that joins subjects allows more than one. -/
  chained : config.joinsSubjects = true ∨ parse.subjects.length = 1
  verbPart : parse.verb.part = .relation
  verbWord : parse.verb.word.relation? = some parse.relation
  predicates : Joined .predicate parse.relation.allowsPredicate parse.predicates
  straight : (parse.subjects ++ parse.verb :: parse.predicates.take 1).IsChain
    (PlacedWord.LeadsTo parse.heading)
  winds : Winds config parse.heading parse.predicates parse.final

end Parse

/-- The words are a sentence. -/
def IsSentence (shown : PlacedWord → Prop) (config : Config) (words : List PlacedWord) : Prop :=
  -- How the words are taken apart is unique, but that need not be known here.
  ∃ parse : Parse, parse.Valid shown config ∧ parse.words = words

/-- The words are a sentence to which no conjunction with another predicate can be added. -/
def IsMaximal (shown : PlacedWord → Prop) (config : Config) (words : List PlacedWord) : Prop :=
  -- Only predicates can be added at the end, and always two words at a time.
  IsSentence shown config words ∧
    ∀ joint next, ¬ IsSentence shown config (words ++ [joint, next])

/-- The words of a sentence show. -/
theorem IsSentence.shows {shown : PlacedWord → Prop} {config : Config} {words : List PlacedWord}
    (sentence : IsSentence shown config words) : ∀ word ∈ words, shown word := by
  -- Showing is one of the conditions on the parts.
  obtain ⟨parse, valid, rfl⟩ := sentence
  exact valid.shown

namespace Joined

variable {part : SentencePart} {test : Word → Bool} {words : List PlacedWord}

/-- There is at least one word. -/
theorem ne_nil (joined : Joined part test words) : words ≠ [] := by
  -- The shortest block is one word.
  cases joined <;> simp

/-- Every word is a conjunction or is in the part and passes the test. -/
theorem mem (joined : Joined part test words) :
    ∀ word ∈ words, word.IsJoint ∨ word.part = part ∧ test word.word = true := by
  -- The blocks are taken apart from the front.
  induction joined with
  | single inPart passes => simpa using .inr ⟨inPart, passes⟩
  | join inPart passes isJoint _ ih =>
    simp only [List.mem_cons, forall_eq_or_imp]
    exact ⟨.inr ⟨inPart, passes⟩, .inl isJoint, ih⟩

/-- Words that pass one test may be joined for another that they pass as well. -/
theorem imp (joined : Joined part test words) {other : Word → Bool}
    (weaker : ∀ word ∈ words, word.part = part → test word.word = true →
      other word.word = true) : Joined part other words := by
  -- The test is replaced word by word; conjunctions are not tested.
  induction joined with
  | single inPart passes => exact .single inPart (weaker _ (by simp) inPart passes)
  | join inPart passes isJoint _ ih =>
    refine .join inPart (weaker _ (by simp) inPart passes) isJoint (ih fun word member => ?_)
    exact weaker word (by simp [member])

/-- Two blocks can be joined. -/
theorem append (joined : Joined part test words) {joint : PlacedWord} (isJoint : joint.IsJoint)
    {others : List PlacedWord} (further : Joined part test others) :
    Joined part test (words ++ joint :: others) := by
  -- The joint follows the last word of the first block.
  induction joined with
  | single inPart passes => exact .join inPart passes isJoint further
  | join inPart passes isJoint _ ih => exact .join inPart passes isJoint ih

/-- Read backwards, joined words are joined words, in whatever part and for whatever test they are
read then. -/
theorem reverse (joined : Joined part test words) {other : SentencePart} {read : Word → Bool}
    {change : PlacedWord → PlacedWord}
    (joints : ∀ word ∈ words, word.IsJoint → (change word).IsJoint)
    (members : ∀ word ∈ words, word.part = part → test word.word = true →
      (change word).part = other ∧ read (change word).word = true) :
    Joined other read (words.map change).reverse := by
  -- The first word becomes the last one, behind its conjunction.
  induction joined with
  | @single word inPart passes =>
    obtain ⟨inOther, reads⟩ := members word (by simp) inPart passes
    exact .single inOther reads
  | @join word joint rest inPart passes isJoint _ ih =>
    obtain ⟨inOther, reads⟩ := members word (by simp) inPart passes
    have tail := ih (fun word member => joints word (by simp [member]))
      (fun word member => members word (by simp [member]))
    simpa using tail.append (joints joint (by simp) isJoint) (.single inOther reads)

/-- What follows a block within a longer one begins with a conjunction and another word. -/
theorem next (joined : Joined part test words) {rest : List PlacedWord}
    (longer : Joined part test (words ++ rest)) (more : rest ≠ []) :
    ∃ joint word later, rest = joint :: word :: later ∧ joint.IsJoint ∧ word.part = part ∧
      test word.word = true := by
  -- The two blocks are followed together up to the end of the shorter one.
  induction joined with
  | single =>
    cases longer with
    | single => exact absurd rfl more
    | join _ _ isJoint further =>
      cases further with
      | single inPart passes => exact ⟨_, _, [], rfl, isJoint, inPart, passes⟩
      | join inPart passes _ _ => exact ⟨_, _, _, rfl, isJoint, inPart, passes⟩
  | join _ _ _ _ ih =>
    cases longer with
    | join _ _ _ further => exact ih further

/-- The first word is in the part and passes the test. -/
theorem exists_first (joined : Joined part test words) :
    ∃ first rest, words = first :: rest ∧ first.part = part ∧ test first.word = true := by
  -- Every block starts with a word of its part.
  cases joined with
  | single inPart passes => exact ⟨_, _, rfl, inPart, passes⟩
  | join inPart passes _ _ => exact ⟨_, _, rfl, inPart, passes⟩

/-- The last word is in the part and passes the test. -/
theorem exists_last (joined : Joined part test words) :
    ∃ before last, words = before ++ [last] ∧ last.part = part ∧ test last.word = true := by
  -- The last word of a longer block is the last one of what follows the joint.
  induction joined with
  | @single word inPart passes => exact ⟨[], word, rfl, inPart, passes⟩
  | @join word joint rest _ _ _ _ ih =>
    obtain ⟨before, last, rfl, inPart, passes⟩ := ih
    exact ⟨word :: joint :: before, last, rfl, inPart, passes⟩

end Joined

namespace Winds

variable {config : Config} {heading final : Direction} {words : List PlacedWord}

/-- A path can be continued by a conjunction straight on and a word in a direction to which it may
turn there. -/
theorem extend (winds : Winds config heading words final) {last joint next : PlacedWord}
    (ends : words.getLast? = some last) (reached : last.LeadsTo final joint) {turned : Direction}
    (mayTurn : MayTurn config final turned) (left : joint.LeadsTo turned next) :
    Winds config heading (words ++ [joint, next]) turned := by
  -- The new words come after the last one, which induction on the path leaves in place.
  induction winds with
  | stay =>
    cases ends
    exact .turn reached mayTurn left .stay
  | turn start turns out _ ih =>
    refine .turn start turns out (ih ?_ reached mayTurn)
    simpa [List.getLast?_cons_cons] using ends

/-- A longer path goes on as the end of the shorter one allows. -/
theorem next (winds : Winds config heading words final) {joint word : PlacedWord}
    {rest : List PlacedWord} {beyond : Direction}
    (longer : Winds config heading (words ++ joint :: word :: rest) beyond) :
    ∃ last turned, words.getLast? = some last ∧ last.LeadsTo final joint ∧
      MayTurn config final turned ∧ joint.LeadsTo turned word ∧ (rest = [] → beyond = turned) := by
  -- Both paths turn alike, because the cells determine every direction.
  induction winds with
  | @stay heading start =>
    cases longer with
    | @turn _ turned _ _ _ _ _ reached mayTurn left further =>
      refine ⟨start, turned, rfl, reached, mayTurn, left, fun short => ?_⟩
      subst short
      cases further
      rfl
  | turn _ _ left _ ih =>
    cases longer with
    | turn _ _ again further =>
      cases Cell.direction_unique left again
      obtain ⟨last, turned, ends, rest⟩ := ih further
      exact ⟨last, turned, by simpa [List.getLast?_cons_cons] using ends, rest⟩

end Winds

end Sentence

end WordTiles
