import WordTiles.Proofs.Rules.Rulebook
import WordTiles.Proofs.Sentence.Found
import WordTiles.Proofs.Sentence.Stated

/-! Nothing that is stated gets lost on the way to the rules: neither with the paths that end
others, nor with those that spell what another one spells, nor with a word that a relation
allows. -/

namespace WordTiles

/-- The parts of the words of a phrase, in reading order. -/
def Phrase.parts (phrase : Phrase) : List SentencePart :=
  -- Conjunctions are among them.
  phrase.words.map (·.part)

namespace Sentence

variable {shown shown' : PlacedWord → Prop} {config config' : Config} {parse : Parse}

/-- The subjects of a sentence are nouns, and its predicates are words that its relation allows. -/
theorem Parse.Valid.of_part (valid : parse.Valid shown config) {word : PlacedWord}
    (member : word ∈ parse.words) :
    (word.part = .subject → word.word.isNoun = true) ∧
      (word.part = .predicate → parse.relation.allowsPredicate word.word = true) := by
  -- A word is in the part of its block, unless it is the relation word or a conjunction.
  rcases List.mem_append.mp member with subject | rest
  · rcases valid.subjects.mem word subject with isJoint | ⟨inPart, admitted⟩
    · simp [isJoint.1]
    · simp [inPart, Relation.isNoun_of_admits admitted]
  · rcases List.mem_cons.mp rest with rfl | predicate
    · simp [valid.verbPart]
    · rcases valid.predicates.mem word predicate with isJoint | ⟨inPart, allowed⟩
      · simp [isJoint.1]
      · simp [inPart, allowed]

/-- A sentence makes a statement for each of its subjects and each of its predicates. -/
theorem IsSentence.length_statements {phrase : Phrase}
    (sentence : IsSentence shown config phrase.words) :
    phrase.statements.length = phrase.parts.count .subject * phrase.parts.count .predicate := by
  obtain ⟨parse, valid, words⟩ := sentence
  have known (word : PlacedWord) (member : word ∈ phrase.words) := valid.of_part (words ▸ member)
  have counted (part : SentencePart) :
      (phrase.words.filter (·.part == part)).length = phrase.parts.count part := by
    rw [Phrase.parts, List.count, List.countP_map, ← List.countP_eq_length_filter]
    rfl
  -- Every subject names a category.
  have subjects : phrase.subjects.length = phrase.parts.count .subject := by
    unfold Phrase.subjects
    rw [List.length_filterMap_eq_countP, List.countP_eq_length.mpr, counted]
    intro word listed
    obtain ⟨member, inPart⟩ := List.mem_filter.mp listed
    exact (known word member).1 (beq_iff_eq.mp inPart)
  -- Every predicate grants something under the relation.
  have told (subject : Category) : (phrase.predicates.filterMap fun predicate =>
      (predicate.word.predicate? parse.relation).map (subject, ·)).length =
        phrase.parts.count .predicate := by
    unfold Phrase.predicates
    rw [List.length_filterMap_eq_countP, List.countP_eq_length.mpr, counted]
    intro word listed
    obtain ⟨member, inPart⟩ := List.mem_filter.mp listed
    rw [Option.isSome_map, Word.isSome_predicate?]
    exact (known word member).2 (beq_iff_eq.mp inPart)
  unfold Phrase.statements
  rw [valid.relation?_eq words.symm]
  simp only [List.length_flatMap, told, List.map_const', List.sum_replicate_nat, subjects]

/-- Sentences that spell the same read every word in the same part. -/
theorem IsSentence.parts_eq {a b : Phrase} (left : IsSentence shown config a.words)
    (right : IsSentence shown' config' b.words) (same : a.spelling = b.spelling) :
    a.parts = b.parts := by
  -- The spelling of a sentence tells how each of its words is read.
  obtain ⟨parse, valid, words⟩ := left
  obtain ⟨other, another, words'⟩ := right
  rw [Phrase.spelling, Phrase.spelling, ← words, ← words'] at same
  have readings := congrArg (List.map Prod.snd) (valid.readings_congr another same)
  rw [List.map_map, List.map_map, words, words'] at readings
  exact readings

end Sentence

open Sentence

/-- The paths that are the end of another one state nothing that the others do not state. -/
theorem Prune.ofPhrases_dropTails {board : Board} {config : Config} {found : List Phrase}
    (single : board.Single)
    (maximal : ∀ path, path ∈ found ↔ IsMaximal board.Shows config path.words) :
    Rulebook.ofPhrases (dropTails found) = Rulebook.ofPhrases found := by
  -- A rulebook depends only on what is stated, and the longer sentence states all of its end.
  refine Rulebook.ofStatements_congr fun statement => ?_
  rw [List.mem_flatMap, List.mem_flatMap]
  constructor
  · rintro ⟨path, kept, stated⟩
    exact ⟨path, (List.mem_filter.mp kept).1, stated⟩
  · -- An outermost sentence with this end is kept, and it states as much.
    rintro ⟨path, member, stated⟩
    have sentence := (maximal path).mp member
    obtain ⟨front, outer⟩ := sentence.exists_outermost single
    have longer : IsOutermost board.Shows config (Phrase.mk (front ++ path.words)).words := outer
    have within : path.entities <:+: Phrase.entities ⟨front ++ path.words⟩ :=
      ⟨front.map (·.entity), [], by rw [List.append_nil]; exact List.map_append.symm⟩
    exact ⟨_, (mem_dropTails_iff_isOutermost single maximal).mpr longer,
      sentence.1.statements_subset single longer.1.1 within stated⟩

namespace Findings

variable {findings : Findings} {paths : List Phrase}

/-- What is spelled by a phrase is what is spelled by a path. -/
theorem Collects.mem_spellings_iff (collects : findings.Collects paths) {words : List Word} :
    words ∈ findings.phrases.map Phrase.spelling ↔ words ∈ paths.map Phrase.spelling := by
  -- The phrases are among the paths, and each path spells one of them.
  rw [List.mem_map, List.mem_map]
  constructor
  · rintro ⟨phrase, listed, same⟩
    exact ⟨phrase, collects.mem_paths phrase listed, same⟩
  · rintro ⟨path, listed, rfl⟩
    exact collects.spelled path listed

/-- What is stated by a phrase is what is stated by a path. -/
theorem Collects.mem_statements_iff (collects : findings.Collects paths)
    {shown : PlacedWord → Prop} {config : Config}
    (sentences : ∀ path ∈ paths, Sentence.IsSentence shown config path.words)
    {statement : Category × Predicate} :
    statement ∈ findings.phrases.flatMap Phrase.statements ↔
      ∃ path ∈ paths, statement ∈ path.statements := by
  rw [List.mem_flatMap]
  constructor
  · rintro ⟨phrase, listed, stated⟩
    exact ⟨phrase, collects.mem_paths phrase listed, stated⟩
  · rintro ⟨path, listed, stated⟩
    -- The phrase that spells what the path spells states what it states.
    obtain ⟨phrase, found, same⟩ := collects.spelled path listed
    have alike := (sentences phrase (collects.mem_paths phrase found)).statements_eq
      (sentences path listed) same
    exact ⟨phrase, found, alike ▸ stated⟩

end Findings

namespace World

/-- No rule gets lost on a world that a host can bring about. All sentences that are found and those
that are the end of no other one make the same rulebook; so do the paths that survive both filters
and the phrases, which spell different words, and between them all that the paths spell. Paths that
spell the same read each word in the same part and make the same statements. A phrase makes one
statement for each subject word and each predicate word. -/
theorem Reachable.search_lossless {world : World} (reachable : world.Reachable) (config : Config) :
    ∃ found kept findings, Agenda.sentences world.board config = .ok found ∧
      Prune.dropReversals (Prune.dropTails found) = .ok kept ∧
      world.search config = .ok findings ∧
      Rulebook.ofPhrases (Prune.dropTails found) = Rulebook.ofPhrases found ∧
      Rulebook.ofPhrases findings.phrases = Rulebook.ofPhrases kept ∧
      (∀ path ∈ kept, ∀ other ∈ kept, path.spelling = other.spelling →
        path.parts = other.parts ∧ path.statements = other.statements) ∧
      (findings.phrases.map Phrase.spelling).Nodup ∧
      (∀ words, words ∈ findings.phrases.map Phrase.spelling ↔
        words ∈ kept.map Phrase.spelling) ∧
      ∀ phrase ∈ findings.phrases, phrase.statements.length =
        phrase.parts.count .subject * phrase.parts.count .predicate := by
  have single := reachable.consistent.single_board
  obtain ⟨found, listed, _, maximal⟩ := Agenda.sentences_spec single config
  obtain ⟨kept, findings, survived, survives, searched, collects, _⟩ :=
    Board.search_spec single config
  rw [Board.paths, listed] at survived
  have sentences : ∀ path ∈ kept, IsSentence world.board.Shows config path.words :=
    fun path member => ((survives path).mp member).1.1.1
  -- What the filters keep are sentences, and the findings are collected from them.
  refine ⟨found, kept, findings, listed, survived, searched,
    Prune.ofPhrases_dropTails single maximal, ?_, ?_, collects.distinct,
    fun words => collects.mem_spellings_iff, ?_⟩
  · refine Rulebook.ofStatements_congr fun statement => ?_
    rw [collects.mem_statements_iff sentences, List.mem_flatMap]
  · intro path member other listed same
    have one := sentences path member
    have two := sentences other listed
    exact ⟨one.parts_eq two same, one.statements_eq two same⟩
  · intro phrase member
    exact (sentences phrase (collects.mem_paths phrase member)).length_statements

/-- Of four sentences that end in one of two stacked tiles, two are the end of another one, and the
other two spell the same: the phrase that is left makes the statements of all. -/
theorem search_lossless_stacked : ∃ bare ids world found kept findings, empty 5 1 = .ok bare ∧
    bare.createAll [.tile .wall ⟨0, 0⟩, .tile .and ⟨1, 0⟩, .tile .rock ⟨2, 0⟩, .tile .is ⟨3, 0⟩,
      .tile .push ⟨4, 0⟩, .tile .push ⟨4, 0⟩] = .ok (ids, world) ∧
    Agenda.sentences world.board .standard = .ok found ∧
    Prune.dropReversals (Prune.dropTails found) = .ok kept ∧
    world.search .standard = .ok findings ∧ found.length = 4 ∧ kept.length = 2 ∧
    findings.phrases.map Phrase.spelling = [[.wall, .and, .rock, .is, .push]] ∧
    Rulebook.ofPhrases (Prune.dropTails found) = Rulebook.ofPhrases found ∧
    Rulebook.ofPhrases findings.phrases = Rulebook.ofPhrases kept ∧
    ∀ phrase ∈ findings.phrases, phrase.statements.length =
      phrase.parts.count .subject * phrase.parts.count .predicate := by
  -- Evaluated in one piece, so that the world is built only once.
  have known : (do
      let bare ← empty 5 1
      let built ← bare.createAll [.tile .wall ⟨0, 0⟩, .tile .and ⟨1, 0⟩, .tile .rock ⟨2, 0⟩,
        .tile .is ⟨3, 0⟩, .tile .push ⟨4, 0⟩, .tile .push ⟨4, 0⟩]
      let found ← Agenda.sentences built.2.board .standard
      let kept ← Prune.dropReversals (Prune.dropTails found)
      let findings ← built.2.search .standard
      return (found.length, kept.length, findings.phrases.map Phrase.spelling) : Except Error _) =
      .ok (4, 2, [[.wall, .and, .rock, .is, .push]]) := by
    cbv
  obtain ⟨bare, built, known⟩ := bind_eq_ok_iff.mp known
  obtain ⟨⟨ids, world⟩, created, known⟩ := bind_eq_ok_iff.mp known
  obtain ⟨found, listed, known⟩ := bind_eq_ok_iff.mp known
  obtain ⟨kept, dropped, known⟩ := bind_eq_ok_iff.mp known
  obtain ⟨findings, searched, known⟩ := bind_eq_ok_iff.mp known
  simp only [Pure.pure, Except.pure, Except.ok.injEq, Prod.mk.injEq] at known
  obtain ⟨all, some, spelled⟩ := known
  obtain ⟨_, _, _, listed', dropped', searched', ends, rules, _, _, _, lengths⟩ :=
    ((Reachable.empty built).createAll created).search_lossless .standard
  cases listed.symm.trans listed'
  cases dropped.symm.trans dropped'
  cases searched.symm.trans searched'
  exact ⟨bare, ids, world, found, kept, findings, built, created, listed, dropped, searched, all,
    some, spelled, ends, rules, lengths⟩

end World

end WordTiles
