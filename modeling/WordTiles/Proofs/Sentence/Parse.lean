import WordTiles.Proofs.Lists
import WordTiles.Proofs.Sentence.Grammar

/-! Sentences taken apart: the relation word tells the blocks of a sentence from each other, and a
sentence is made longer at its end. -/

namespace WordTiles

namespace Word

/-- A noun states no relation. -/
theorem relation?_of_isNoun {word : Word} (noun : word.isNoun = true) : word.relation? = none := by
  -- The words are looked up one by one.
  cases word <;> first | rfl | cases noun

/-- A predicate states no relation. -/
theorem relation?_of_allowsPredicate {word : Word} {relation : Relation}
    (allowed : relation.allowsPredicate word = true) : word.relation? = none := by
  -- As for nouns, under each relation.
  cases word <;> cases relation <;> first | rfl | cases allowed

end Word

/-- A subject of a relation is a noun. -/
theorem Relation.isNoun_of_admits {relation : Relation} {word : Word}
    (admitted : relation.admits word = true) : word.isNoun = true := by
  -- A word that names no category is admitted by no relation.
  unfold Relation.admits at admitted
  unfold Word.isNoun
  cases named : word.category? with
  | none => simp [named] at admitted
  | some category => rfl

namespace Sentence

namespace Parse

variable {shown : PlacedWord → Prop} {config : Config} {parse other : Parse}

namespace Valid

/-- No word of the subjects states a relation. -/
theorem subjects_free (valid : parse.Valid shown config) :
    ∀ word ∈ parse.subjects, word.word.relation?.isSome = false := by
  -- Subjects are joined by conjunctions, and neither kind of word states a relation.
  intro word member
  rcases valid.subjects.mem word member with isJoint | ⟨_, admitted⟩
  · rw [isJoint.2]
    rfl
  · rw [Word.relation?_of_isNoun (Relation.isNoun_of_admits admitted)]
    rfl

/-- No word of the predicates states a relation. -/
theorem predicates_free (valid : parse.Valid shown config) :
    ∀ word ∈ parse.predicates, word.word.relation?.isSome = false := by
  -- As for subjects.
  intro word member
  rcases valid.predicates.mem word member with isJoint | ⟨_, allowed⟩
  · rw [isJoint.2]
    rfl
  · rw [Word.relation?_of_allowsPredicate allowed]
    rfl

/-- The relation word states a relation. -/
theorem verb_hit (valid : parse.Valid shown config) :
    parse.verb.word.relation?.isSome = true := by
  -- The parse names the relation that it states.
  rw [valid.verbWord]
  rfl

/-- There is a first predicate. -/
theorem exists_first (valid : parse.Valid shown config) :
    ∃ first rest, parse.predicates = first :: rest := by
  -- The predicates are a block, and a block is not empty.
  cases predicates : parse.predicates with
  | nil => exact absurd predicates valid.predicates.ne_nil
  | cons first rest => exact ⟨first, rest, rfl⟩

/-- The last subject leads to the relation word. -/
theorem reaches_verb (valid : parse.Valid shown config) :
    ∃ before last, parse.subjects = before ++ [last] ∧
      last.LeadsTo parse.heading parse.verb := by
  -- The last subject and the relation word are neighbours on the straight part of the path.
  obtain ⟨before, last, split, _⟩ := valid.subjects.exists_last
  have straight := valid.straight
  rw [split, List.append_assoc, List.singleton_append] at straight
  exact ⟨before, last, split, (List.isChain_cons_cons.mp straight.right_of_append).1⟩

/-- Words that begin alike up to the relation word begin in the same direction, with the same
relation. -/
theorem same_start (valid : parse.Valid shown config) (another : other.Valid shown config)
    (subjects : parse.subjects = other.subjects) (verb : parse.verb = other.verb) :
    parse.heading = other.heading ∧ parse.relation = other.relation := by
  -- The last subject and the relation word fix the direction, and the relation word the relation.
  obtain ⟨before, last, split, reaches⟩ := valid.reaches_verb
  obtain ⟨before', last', split', reaches'⟩ := another.reaches_verb
  rw [subjects, split'] at split
  obtain ⟨_, same⟩ := List.append_inj' split rfl
  cases same
  rw [← verb] at reaches'
  have stated := valid.verbWord
  rw [verb, another.verbWord] at stated
  exact ⟨Cell.direction_unique reaches reaches', (Option.some.inj stated).symm⟩

/-- A sentence that another one begins with has the same subjects and relation word, and its
predicates come first among those of the other. -/
theorem begins (valid : parse.Valid shown config) (another : other.Valid shown config)
    {rest : List PlacedWord} (longer : other.words = parse.words ++ rest) :
    other.subjects = parse.subjects ∧ other.verb = parse.verb ∧
      other.predicates = parse.predicates ++ rest := by
  -- The relation word is the only word that states one, and so it splits both sentences at one
  -- place.
  unfold words at longer
  rw [List.append_assoc, List.cons_append] at longer
  exact split_unique longer another.subjects_free another.predicates_free valid.verb_hit

end Valid

/-- The parts of a sentence after a conjunction and one more predicate. -/
def extend (parse : Parse) (joint next : PlacedWord) (turned : Direction) : Parse :=
  -- Only the predicates grow, and the path takes its last direction from the new one.
  { parse with predicates := parse.predicates ++ [joint, next], final := turned }

/-- The two words come last. -/
@[simp] theorem words_extend {joint next : PlacedWord} {turned : Direction} :
    (parse.extend joint next turned).words = parse.words ++ [joint, next] := by
  -- The predicates are the end of the words.
  simp [words, extend]

/-- When a conjunction and one more predicate continue a sentence: both show, the predicate fits the
relation, the path reaches them, and their places are free. -/
structure Continues (shown : PlacedWord → Prop) (config : Config) (parse : Parse)
    (joint next : PlacedWord) (turned : Direction) : Prop where
  showJoint : shown joint
  showNext : shown next
  isJoint : joint.IsJoint
  inPart : next.part = .predicate
  allowed : parse.relation.allowsPredicate next.word = true
  path : ∃ last, parse.words.getLast? = some last ∧ last.LeadsTo parse.final joint
  mayTurn : MayTurn config parse.final turned
  left : joint.LeadsTo turned next
  freeJoint : joint.place ∉ parse.words.map PlacedWord.place
  freeNext : next.place ∉ parse.words.map PlacedWord.place

namespace Valid

/-- The last word of a sentence is its last predicate. -/
theorem getLast?_words (valid : parse.Valid shown config) :
    parse.words.getLast? = parse.predicates.getLast? := by
  -- There is at least one predicate, and the predicates come last.
  obtain ⟨first, rest, split⟩ := valid.exists_first
  rw [words, split, List.getLast?_append, List.getLast?_cons_cons,
    List.getLast?_eq_some_getLast (List.cons_ne_nil first rest), Option.some_or]

/-- Words that continue a sentence make a longer one. -/
theorem extend (valid : parse.Valid shown config) {joint next : PlacedWord} {turned : Direction}
    (continues : parse.Continues shown config joint next turned) :
    (parse.extend joint next turned).Valid shown config := by
  obtain ⟨last, ends, reached⟩ := continues.path
  rw [valid.getLast?_words] at ends
  constructor
  · intro word member
    -- The two new words show, and the others did.
    rw [words_extend, List.mem_append, List.mem_cons, List.mem_singleton] at member
    rcases member with member | rfl | rfl
    · exact valid.shown word member
    · exact continues.showJoint
    · exact continues.showNext
  · rw [words_extend, List.map_append]
    -- A conjunction and a predicate never take the same place.
    have apart : joint.place ≠ next.place := by
      intro same
      have parts := congrArg Prod.snd same
      change joint.part = next.part at parts
      rw [continues.isJoint.1, continues.inPart] at parts
      cases parts
    refine List.nodup_append.mpr ⟨valid.distinct, by simp [apart], ?_⟩
    intro place taken added member same
    subst same
    simp only [List.map_cons, List.map_nil, List.mem_cons, List.not_mem_nil, or_false] at member
    rcases member with rfl | rfl
    · exact continues.freeJoint taken
    · exact continues.freeNext taken
  · exact valid.subjects
  · exact valid.chained
  · exact valid.verbPart
  · exact valid.verbWord
  · exact valid.predicates.append continues.isJoint
      (.single continues.inPart continues.allowed)
  · -- The path goes straight up to the first predicate, which is an old one.
    obtain ⟨first, rest, split⟩ := valid.exists_first
    have straight := valid.straight
    simp only [split, Parse.extend, List.cons_append, List.take_succ_cons, List.take_zero]
      at straight ⊢
    exact straight
  · exact valid.winds.extend ends reached continues.mayTurn continues.left

/-- Whatever sentence is longer by some words continues with a conjunction and a predicate. -/
theorem continues (valid : parse.Valid shown config) (another : other.Valid shown config)
    {rest : List PlacedWord} (longer : other.words = parse.words ++ rest) (more : rest ≠ []) :
    ∃ joint next later turned, rest = joint :: next :: later ∧
      parse.Continues shown config joint next turned ∧ (later = [] → other.final = turned) := by
  -- The blocks of both agree up to the end of the shorter sentence.
  obtain ⟨subjects, verb, predicates⟩ := valid.begins another longer
  obtain ⟨heading, relation⟩ := another.same_start valid subjects verb
  have joined := another.predicates
  rw [relation, predicates] at joined
  obtain ⟨joint, next, later, rfl, isJoint, inPart, allowed⟩ :=
    valid.predicates.next joined more
  have winds := another.winds
  rw [heading, predicates] at winds
  obtain ⟨last, turned, ends, reached, mayTurn, left, short⟩ := valid.winds.next winds
  refine ⟨joint, next, later, turned, rfl, ?_, short⟩
  -- No place of the longer sentence is taken twice, so those of the two words were free.
  have distinct := another.distinct
  rw [longer, List.map_append] at distinct
  have free := (List.nodup_append.mp distinct).2.2
  constructor
  · exact another.shown joint (by simp [longer])
  · exact another.shown next (by simp [longer])
  · exact isJoint
  · exact inPart
  · exact allowed
  · exact ⟨last, valid.getLast?_words.trans ends, reached⟩
  · exact mayTurn
  · exact left
  · exact fun taken => free _ taken _ (by simp) rfl
  · exact fun taken => free _ taken _ (by simp) rfl

end Valid

/-- A sentence is maximal exactly when nothing continues it. -/
theorem Valid.isMaximal_iff (valid : parse.Valid shown config) :
    IsMaximal shown config parse.words ↔
      ∀ joint next turned, ¬ parse.Continues shown config joint next turned := by
  -- Two words that make a longer sentence are words that continue this one.
  constructor
  · intro maximal joint next turned continues
    exact maximal.2 joint next ⟨_, valid.extend continues, words_extend⟩
  · intro stuck
    refine ⟨⟨parse, valid, rfl⟩, ?_⟩
    intro joint next longer
    obtain ⟨other, another, same⟩ := longer
    obtain ⟨joint, next, _, turned, _, continues, _⟩ := valid.continues another same (by simp)
    exact stuck joint next turned continues

end Parse

end Sentence

end WordTiles
