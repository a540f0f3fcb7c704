import WordTiles.Proofs.Rules.Rulebook
import WordTiles.Proofs.Sentence.Found
import WordTiles.Proofs.Sentence.Stated

/-! Simple sentences: three tiles in a row that read as a sentence are never ignored, whatever other
words are stacked on them or chained to them. -/

namespace WordTiles

namespace Sentence

variable {board : Board} {config : Config}

/-- The sentence of one subject, a relation word and one predicate, in a direction. -/
def Parse.simple (subject verb object : PlacedWord) (relation : Relation) (heading : Direction) :
    Parse :=
  -- Both blocks are single words, so that the path is straight to its end.
  ⟨[subject], verb, [object], relation, heading, heading⟩

/-- Such a sentence states what its predicate grants of what its subject names. -/
theorem Parse.Valid.mem_statements_simple {shown : PlacedWord → Prop}
    {subject verb object : PlacedWord} {relation : Relation} {heading : Direction}
    (valid : (Parse.simple subject verb object relation heading).Valid shown config)
    {category : Category} {predicate : Predicate}
    (names : subject.word.category? = some category)
    (grants : object.word.predicate? relation = some predicate) :
    (category, predicate) ∈ Phrase.statements ⟨[subject, verb, object]⟩ := by
  -- The one subject and the one predicate are in their parts.
  obtain ⟨inPart, -⟩ := valid.subjects
  obtain ⟨inPart', -⟩ := valid.predicates
  exact Phrase.mem_statements_iff.mpr ⟨relation, valid.relation?_eq rfl,
    Phrase.mem_subjects_iff.mpr ⟨subject, by simp, inPart, names⟩, object,
    Phrase.mem_predicates_iff.mpr ⟨by simp, inPart'⟩, grants⟩

/-- Every sentence is carried by one that survives: by one that states as much, or by one that reads
its tiles backwards. -/
theorem IsSentence.exists_carrier (single : board.Single) {phrase : Phrase}
    (sentence : IsSentence board.Shows config phrase.words) :
    ∃ path : Phrase, (IsOutermost board.Shows config path.words ∧
      Prevails board.Shows config path.words) ∧
        (phrase.statements ⊆ path.statements ∨ phrase.IsReadBackIn path) := by
  -- A maximal sentence that begins with this one survives, ends a survivor, or is read back in one.
  obtain ⟨rest, maximal⟩ := sentence.exists_maximal
  have begins : phrase.entities <+: Phrase.entities ⟨phrase.words ++ rest⟩ :=
    ⟨rest.map (·.entity), by rw [Phrase.entities, Phrase.entities, List.map_append]⟩
  have longest : IsMaximal board.Shows config (Phrase.mk (phrase.words ++ rest)).words := maximal
  obtain ⟨path, survives, related⟩ := longest.exists_survivor single
  refine ⟨path, survives, ?_⟩
  have outer := survives.1.1.1
  rcases related with rfl | ends | back
  · exact .inl (sentence.statements_subset single outer begins.isInfix)
  · exact .inl (sentence.statements_subset single outer (begins.isInfix.trans ends.1.isInfix))
  · exact .inr ((List.reverse_infix.mpr begins.isInfix).trans back)

/-- A sentence that is read backwards within another has nouns as its predicates. -/
theorem Parse.Valid.isNoun_of_isReadBackIn (single : board.Single) {parse : Parse}
    (valid : parse.Valid board.Shows config) {phrase path : Phrase}
    (words : parse.words = phrase.words) (outer : IsSentence board.Shows config path.words)
    (back : phrase.IsReadBackIn path) :
    ∀ word ∈ parse.predicates, word.part = .predicate → word.word.isNoun = true := by
  -- The predicates of the one are subjects of the other.
  obtain ⟨other, another, words'⟩ := outer
  obtain ⟨front, rest, same⟩ := back
  rw [Phrase.entities, Phrase.entities, ← words, ← words'] at same
  obtain ⟨before, _, subjects, _⟩ := valid.across single another same.symm
  intro word member inPart
  have listed : word.turned ∈ other.subjects := by
    rw [subjects]
    exact List.mem_append_right before (mem_backwards_iff.mpr (by rwa [PlacedWord.turned_turned]))
  have admitted : other.relation.admits word.turned.word = true :=
    another.subjects.passes (by decide) listed (congrArg SentencePart.turned inPart)
  exact Relation.isNoun_of_admits admitted

end Sentence

namespace World

open Sentence

/-- Three live entities in a row, in any of the directions, read as a noun, a relation word that
allows what the noun names, and a word that the relation allows. -/
structure SpellsRow (world : World) (subject verb object : Entity) (category : Category)
    (relation : Relation) (last : Word) : Prop where
  subjectLives : subject ∈ world.entities
  verbLives : verb ∈ world.entities
  objectLives : object ∈ world.entities
  names : subject.word.bind Word.category? = some category
  relates : verb.word.bind Word.relation? = some relation
  ends : object.word = some last
  straight : ∃ direction, subject.position.neighbor direction = .ok verb.position ∧
    verb.position.neighbor direction = .ok object.position
  allowsSubject : relation.allowsSubject category = true
  allowsPredicate : relation.allowsPredicate last = true

/-- The word of a live entity shows on the cell where the entity stands. -/
theorem Consistent.shows_of_mem {world : World} (consistent : world.Consistent) {entity : Entity}
    (live : entity ∈ world.entities) {word : Word} (carried : entity.word = some word)
    (part : SentencePart) : world.board.Shows ⟨word, entity.position, entity.id, part⟩ :=
  -- The entity stands in the stack of its own cell, and is found under its identifier.
  consistent.board_shows_iff.mpr ⟨consistent.inside entity live,
    consistent.mem_stackAt_iff.mpr ⟨entity, live, rfl, rfl⟩, entity,
    find?_eq_some_iff.mpr ⟨live, rfl⟩, rfl, carried⟩

/-- Three such entities make a sentence. -/
theorem SpellsRow.exists_sentence {world : World} {subject verb object : Entity}
    {category : Category} {relation : Relation} {last : Word}
    (row : world.SpellsRow subject verb object category relation last)
    (consistent : world.Consistent) (config : Config) :
    ∃ (noun verbWord : Word) (heading : Direction), noun.category? = some category ∧
      (Parse.simple ⟨noun, subject.position, subject.id, .subject⟩
        ⟨verbWord, verb.position, verb.id, .relation⟩
        ⟨last, object.position, object.id, .predicate⟩ relation heading).Valid
          world.board.Shows config := by
  obtain ⟨noun, carried, names⟩ := Option.bind_eq_some_iff.mp row.names
  obtain ⟨verbWord, carried', relates⟩ := Option.bind_eq_some_iff.mp row.relates
  obtain ⟨heading, toVerb, toObject⟩ := row.straight
  refine ⟨noun, verbWord, heading, names, ?_⟩
  constructor
  · intro word member
    simp only [Parse.words, Parse.simple, List.cons_append, List.nil_append, List.mem_cons,
      List.not_mem_nil, or_false] at member
    rcases member with rfl | rfl | rfl
    · exact consistent.shows_of_mem row.subjectLives carried .subject
    · exact consistent.shows_of_mem row.verbLives carried' .relation
    · exact consistent.shows_of_mem row.objectLives row.ends .predicate
  · -- The three words are in three different parts.
    simp [Parse.words, Parse.simple, PlacedWord.place]
  · refine .single rfl ?_
    simp [Parse.simple, Relation.admits, names, row.allowsSubject]
  · exact .inr rfl
  · rfl
  · exact relates
  · exact .single rfl row.allowsPredicate
  · exact .cons_cons toVerb (.cons_cons toObject (.singleton _))
  · exact .stay

/-- On a world that a host can bring about every simple sentence counts: the rules that the phrases
state grant what its predicate means to what its subject names, unless the predicate is a noun as
well and a path that survives reads the three tiles in the opposite order. -/
theorem SpellsRow.granted_or_read_back {world : World} {subject verb object : Entity}
    {category : Category} {relation : Relation} {last : Word}
    (row : world.SpellsRow subject verb object category relation last)
    (reachable : world.Reachable) (config : Config) :
    ∃ findings kept predicate, world.search config = .ok findings ∧
      world.board.paths config = .ok kept ∧ last.predicate? relation = some predicate ∧
        (((Rulebook.ofPhrases findings.phrases).grants category).Includes predicate ∨
          last.isNoun = true ∧
            ∃ path ∈ kept, [object.id, verb.id, subject.id] <:+: path.entities) := by
  have consistent := reachable.consistent
  have single := consistent.single_board
  obtain ⟨kept, findings, paths, survives, searched, collects, _⟩ :=
    Board.search_spec single config
  obtain ⟨predicate, grants⟩ := Option.isSome_iff_exists.mp
    (Word.isSome_predicate?.trans row.allowsPredicate)
  refine ⟨findings, kept, predicate, searched, paths, grants, ?_⟩
  obtain ⟨noun, verbWord, heading, names, valid⟩ := row.exists_sentence consistent config
  have sentence : IsSentence world.board.Shows config (Phrase.mk (Parse.words _)).words :=
    ⟨_, valid, rfl⟩
  obtain ⟨path, survivor, carried⟩ := sentence.exists_carrier single
  have listed := (survives path).mpr survivor
  rcases carried with subset | back
  · -- The phrase that spells the carrier states as much, although it may lie elsewhere.
    obtain ⟨phrase, found, spelled⟩ := collects.spelled path listed
    have sentence := ((survives phrase).mp (collects.mem_paths phrase found)).1.1.1
    have same := sentence.statements_eq survivor.1.1.1 spelled
    refine .inl (Rulebook.includes_ofPhrases found ?_)
    rw [same]
    exact subset (valid.mem_statements_simple names grants)
  · exact .inr ⟨valid.isNoun_of_isReadBackIn single rfl survivor.1.1.1 back _ (.head _) rfl, path,
      listed, back⟩

/-- The rule of a row of three words is in force. -/
theorem granted_of_row : ∃ world subject verb object findings,
    World.row [.rock, .is, .push] = .ok world ∧
      world.SpellsRow subject verb object .rock .is .push ∧
      world.search .standard = .ok findings ∧
        ((Rulebook.ofPhrases findings.phrases).grants .rock).Includes (.property .push) := by
  obtain ⟨world, built⟩ : ∃ world, World.row [.rock, .is, .push] = .ok world := ⟨_, rfl⟩
  have known : (do return (← World.row [.rock, .is, .push]).entities : Except Error _) = .ok
      [.ofSpawn ⟨0⟩ (.tile .rock ⟨0, 0⟩), .ofSpawn ⟨1⟩ (.tile .is ⟨1, 0⟩),
        .ofSpawn ⟨2⟩ (.tile .push ⟨2, 0⟩)] := by
    cbv
  rw [built] at known
  have entities := Except.ok.inj known
  have row : world.SpellsRow (.ofSpawn ⟨0⟩ (.tile .rock ⟨0, 0⟩)) (.ofSpawn ⟨1⟩ (.tile .is ⟨1, 0⟩))
      (.ofSpawn ⟨2⟩ (.tile .push ⟨2, 0⟩)) .rock .is .push :=
    ⟨by simp [entities], by simp [entities], by simp [entities], rfl, rfl, rfl,
      ⟨.east, rfl, rfl⟩, rfl, rfl⟩
  obtain ⟨findings, _, predicate, searched, _, states, granted⟩ :=
    row.granted_or_read_back (.row built) .standard
  cases states
  -- The last word is no noun, so nothing can read the row in the opposite order.
  have proper : ¬ Word.push.isNoun = true := by decide
  exact ⟨world, _, _, _, findings, built, row, searched,
    granted.resolve_right fun back => proper back.1⟩

end World

end WordTiles
