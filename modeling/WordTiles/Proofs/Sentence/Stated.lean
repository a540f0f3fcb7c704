import WordTiles.Proofs.Sentence.Overlap

/-! What a sentence states: it depends on the words and their parts alone, and of a sentence the
spelling tells the parts. -/

namespace WordTiles

/-- The word with the part that it plays, wherever its tile lies. -/
def PlacedWord.reading (word : PlacedWord) : Word × SentencePart :=
  -- Cell and entity are left out.
  (word.word, word.part)

namespace Phrase

/-- The words of a phrase with their parts. -/
def readings (phrase : Phrase) : List (Word × SentencePart) :=
  -- The order is that of the words.
  phrase.words.map PlacedWord.reading

/-- The first word that is read as a relation states the relation. -/
theorem relation?_eq (phrase : Phrase) :
    phrase.relation? =
      (phrase.readings.find? (·.2 == .relation)).bind (·.1.relation?) := by
  -- Forgetting the cells comes before the search or after it.
  unfold relation? readings
  rw [List.find?_map, Option.bind_map]
  rfl

/-- The nouns that are read as subjects name the subjects. -/
theorem subjects_eq (phrase : Phrase) :
    phrase.subjects =
      (phrase.readings.filter (·.2 == .subject)).filterMap (·.1.category?) := by
  -- Forgetting the cells comes before the filter or after it.
  unfold subjects readings
  rw [List.filter_map, List.filterMap_map]
  rfl

/-- Phrases with the same words in the same parts state the same. -/
theorem statements_congr {a b : Phrase} (same : a.readings = b.readings) :
    a.statements = b.statements := by
  -- What a subject is told is read off the words in the part of predicates.
  have told (phrase : Phrase) (relation : Relation) (subject : Category) :
      (phrase.predicates.filterMap fun predicate =>
        (predicate.word.predicate? relation).map (subject, ·)) =
      (phrase.readings.filter (·.2 == .predicate)).filterMap fun predicate =>
        (predicate.1.predicate? relation).map (subject, ·) := by
    unfold predicates readings
    rw [List.filter_map, List.filterMap_map]
    rfl
  unfold statements
  simp only [told, relation?_eq, subjects_eq, same]

/-- A category is a subject when a word in that part names it. -/
theorem mem_subjects_iff {phrase : Phrase} {category : Category} :
    category ∈ phrase.subjects ↔
      ∃ word ∈ phrase.words, word.part = .subject ∧ word.word.category? = some category := by
  -- The words are filtered by part, then read as categories.
  simp [subjects, and_assoc]

/-- A word is a predicate when it is read as one. -/
theorem mem_predicates_iff {phrase : Phrase} {word : PlacedWord} :
    word ∈ phrase.predicates ↔ word ∈ phrase.words ∧ word.part = .predicate := by
  -- The words are filtered by part.
  simp [predicates]

/-- A phrase with a relation states of each subject what each predicate grants. -/
theorem mem_statements_iff {phrase : Phrase} {category : Category} {predicate : Predicate} :
    (category, predicate) ∈ phrase.statements ↔
      ∃ relation, phrase.relation? = some relation ∧ category ∈ phrase.subjects ∧
        ∃ word ∈ phrase.predicates, word.word.predicate? relation = some predicate := by
  -- Without a relation there is no statement; with one, each pair is tried.
  unfold statements
  cases phrase.relation? with
  | none => simp
  | some relation =>
    simp only [List.mem_flatMap, List.mem_filterMap, Option.map_eq_some_iff, Prod.mk.injEq,
      Option.some.injEq, exists_eq_left']
    constructor
    · rintro ⟨subject, named, word, listed, granted, grants, rfl, rfl⟩
      exact ⟨named, word, listed, grants⟩
    · rintro ⟨named, word, listed, grants⟩
      exact ⟨category, named, word, listed, predicate, grants, rfl, rfl⟩

end Phrase

namespace Sentence

/-- The words of a block with their parts: every word but the conjunctions is in one part. -/
def blockReadings (part : SentencePart) (block : List Word) : List (Word × SentencePart) :=
  -- Only the conjunction is told from the other words of a block.
  block.map fun word => (word, if word = .and then .conjunction else part)

/-- The words of a block tell its parts, unless the test lets a conjunction pass. -/
theorem Joined.readings_eq {part : SentencePart} {test : Word → Bool} {words : List PlacedWord}
    (joined : Joined part test words) (fails : test .and = false) :
    words.map PlacedWord.reading = blockReadings part (words.map (·.word)) := by
  -- Each word tells its part by itself.
  unfold blockReadings
  rw [List.map_map]
  refine List.map_congr_left fun word member => ?_
  exact Prod.ext rfl (joined.part_eq fails word member)

namespace Parse

variable {shown shown' : PlacedWord → Prop} {config config' : Config} {parse other : Parse}

/-- The relation of a sentence is what its phrase is found to state. -/
theorem Valid.relation?_eq (valid : parse.Valid shown config) {phrase : Phrase}
    (same : phrase.words = parse.words) : phrase.relation? = some parse.relation := by
  -- No subject is read as a relation, so the search gets to the relation word.
  have free : parse.subjects.find? (·.part == .relation) = none := by
    refine List.find?_eq_none.mpr fun word member isRelation => ?_
    rw [beq_iff_eq] at isRelation
    rcases valid.subjects.mem word member with isJoint | ⟨inPart, _⟩
    · rw [isJoint.1] at isRelation
      cases isRelation
    · rw [inPart] at isRelation
      cases isRelation
  have found : (parse.verb.part == .relation) = true := beq_iff_eq.mpr valid.verbPart
  unfold Phrase.relation?
  rw [same, words, List.find?_append, free, Option.none_or, List.find?_cons, found]
  exact valid.verbWord

/-- The words of a sentence with their parts, block by block. -/
theorem Valid.readings_eq (valid : parse.Valid shown config) :
    parse.words.map PlacedWord.reading =
      blockReadings .subject (parse.subjects.map (·.word)) ++
        (parse.verb.word, .relation) ::
          blockReadings .predicate (parse.predicates.map (·.word)) := by
  -- No relation lets a conjunction pass as a subject or as a predicate.
  have subject : parse.relation.admits .and = false := by cases parse.relation <;> rfl
  have predicate : parse.relation.allowsPredicate .and = false := by
    cases parse.relation <;> rfl
  rw [words, List.map_append, List.map_cons, valid.subjects.readings_eq subject,
    valid.predicates.readings_eq predicate]
  exact congrArg (_ ++ · :: _) (Prod.ext rfl valid.verbPart)

/-- Sentences that spell the same read every word in the same part. -/
theorem Valid.readings_congr (valid : parse.Valid shown config)
    (another : other.Valid shown' config')
    (same : parse.words.map (·.word) = other.words.map (·.word)) :
    parse.words.map PlacedWord.reading = other.words.map PlacedWord.reading := by
  -- Only the relation word states a relation, and so the spelling tells the blocks around it.
  have free {block : List PlacedWord}
      (silent : ∀ word ∈ block, word.word.relation?.isSome = false) :
      ∀ word ∈ block.map (·.word), word.relation?.isSome = false := by
    intro word member
    obtain ⟨placed, listed, rfl⟩ := List.mem_map.mp member
    exact silent placed listed
  rw [words, words, List.map_append, List.map_append, List.map_cons, List.map_cons] at same
  obtain ⟨subjects, verb, predicates⟩ := split_unique same (free valid.subjects_free)
    (free valid.predicates_free) another.verb_hit
  rw [valid.readings_eq, another.readings_eq, subjects, verb, predicates]

end Parse

/-- Sentences that spell the same state the same. -/
theorem IsSentence.statements_eq {shown shown' : PlacedWord → Prop} {config config' : Config}
    {a b : Phrase} (left : IsSentence shown config a.words)
    (right : IsSentence shown' config' b.words) (same : a.spelling = b.spelling) :
    a.statements = b.statements := by
  -- The spelling tells the parts, and the statements depend on words and parts alone.
  obtain ⟨parse, valid, words⟩ := left
  obtain ⟨other, another, words'⟩ := right
  apply Phrase.statements_congr
  unfold Phrase.spelling at same
  unfold Phrase.readings
  rw [← words, ← words'] at same ⊢
  exact valid.readings_congr another same

/-- A sentence whose tiles stand side by side in another states nothing that the other does not
state as well. -/
theorem IsSentence.statements_subset {board : Board} {config : Config} (single : board.Single)
    {a b : Phrase} (inner : IsSentence board.Shows config a.words)
    (outer : IsSentence board.Shows config b.words) (inside : a.entities <:+: b.entities) :
    a.statements ⊆ b.statements := by
  -- The relation words are one, and the blocks of the inner sentence are parts of the outer ones.
  obtain ⟨parse, valid, words⟩ := inner
  obtain ⟨other, another, words'⟩ := outer
  obtain ⟨front, back, same⟩ := inside
  rw [Phrase.entities, Phrase.entities, ← words, ← words'] at same
  obtain ⟨before, after, subjects, verb, relation, predicates, _⟩ :=
    valid.within single another same.symm
  -- Every word of the one is a word of the other.
  have listed : ∀ word ∈ a.words, word ∈ b.words := by
    rw [← words, ← words', Parse.words, Parse.words, subjects, verb, predicates]
    intro word member
    simp only [List.mem_append, List.mem_cons] at member ⊢
    tauto
  -- A statement is made by a subject and a predicate, which are words of both.
  intro stated member
  obtain ⟨category, predicate⟩ := stated
  obtain ⟨found, states, named, word, told, grants⟩ := Phrase.mem_statements_iff.mp member
  rw [valid.relation?_eq words.symm, ← relation] at states
  obtain ⟨subject, spelled, inPart, names⟩ := Phrase.mem_subjects_iff.mp named
  obtain ⟨spelled', inPart'⟩ := Phrase.mem_predicates_iff.mp told
  exact Phrase.mem_statements_iff.mpr ⟨found, (another.relation?_eq words'.symm).trans states,
    Phrase.mem_subjects_iff.mpr ⟨subject, listed subject spelled, inPart, names⟩, word,
    Phrase.mem_predicates_iff.mpr ⟨listed word spelled', inPart'⟩, grants⟩

end Sentence

end WordTiles
