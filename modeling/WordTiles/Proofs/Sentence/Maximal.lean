import Mathlib.Algebra.Module.Submodule.Lattice
import Mathlib.Data.List.Permutation
import WordTiles.Proofs.Sentence.Parse
import WordTiles.Proofs.Sentence.Readings

/-! The agenda finds the maximal sentences: whatever a draft has read is a sentence or the beginning
of one, and every sentence is read by some draft. -/

namespace WordTiles

namespace Draft

open Sentence

/-- What has been read before the first predicate, by the phase of the draft. -/
inductive Opening (config : Config) : Phase → List PlacedWord → Prop where
  | subject {subjects : List PlacedWord} (joined : Joined .subject Word.isNoun subjects)
      (chained : config.joinsSubjects = true ∨ subjects.length = 1) :
      Opening config .subject subjects
  | conjunction {subjects : List PlacedWord} {joint : PlacedWord}
      (joined : Joined .subject Word.isNoun subjects) (joins : config.joinsSubjects = true)
      (isJoint : joint.IsJoint) : Opening config .conjunction (subjects ++ [joint])
  | relation {subjects : List PlacedWord} {verb : PlacedWord} {relation : Relation}
      (joined : Joined .subject relation.admits subjects)
      (chained : config.joinsSubjects = true ∨ subjects.length = 1) (inPart : verb.part = .relation)
      (states : verb.word.relation? = some relation) :
      Opening config (.relation relation) (subjects ++ [verb])

/-- A draft on its way to the first predicate: its words show, they take different places on a
straight line, and they open a sentence. -/
structure Opens (board : Board) (config : Config) (draft : Draft) : Prop where
  shown : ∀ word ∈ draft.phrase.words, board.Shows word
  distinct : (draft.phrase.words.map PlacedWord.place).Nodup
  straight : draft.phrase.words.IsChain (PlacedWord.LeadsTo draft.heading)
  opening : Opening config draft.phase draft.phrase.words

/-- A draft that has read the sentence that a parse takes apart. -/
structure Traces (board : Board) (config : Config) (draft : Draft) (parse : Parse) : Prop where
  valid : parse.Valid board.Shows config
  words : parse.words = draft.phrase.words
  phase : draft.phase = .predicate parse.relation
  heading : draft.heading = parse.final

variable {board : Board} {config : Config} {draft fork : Draft}

/-- The last word of a draft comes last in its phrase. -/
theorem getLast?_words : draft.phrase.words.getLast? = some draft.last := by
  -- The phrase is the trail reversed, and the trail begins with the last word.
  simp [phrase, trail]

/-- Reading a word appends it. -/
@[simp] theorem words_read {word : PlacedWord} {phase : Phase} :
    (draft.read word phase).phrase.words = draft.phrase.words ++ [word] := by
  -- What is read last stands first in the trail.
  simp [read, phrase, trail]

/-- The places of a draft are those of its phrase. -/
theorem mem_places_iff {place : Cell × SentencePart} :
    place ∈ draft.places ↔ place ∈ draft.phrase.words.map PlacedWord.place := by
  -- Reversing the trail keeps its members.
  simp [places, phrase]

/-- Places stay different when the word in a free place is appended. -/
theorem nodup_append_word {words : List PlacedWord} {word : PlacedWord}
    (distinct : (words.map PlacedWord.place).Nodup)
    (free : word.place ∉ words.map PlacedWord.place) :
    ((words ++ [word]).map PlacedWord.place).Nodup := by
  -- The appended place is none of those before it.
  rw [List.map_append, List.map_singleton]
  exact List.nodup_append.mpr ⟨distinct, by simp, fun a taken b member same =>
    free (by rw [← List.mem_singleton.mp member, ← same]; exact taken)⟩

/-- A straight line goes on to the word that its last one leads to. -/
theorem straight_append_word {words : List PlacedWord} {last word : PlacedWord}
    {heading : Direction} (straight : words.IsChain (PlacedWord.LeadsTo heading))
    (ends : words.getLast? = some last) (reached : last.LeadsTo heading word) :
    (words ++ [word]).IsChain (PlacedWord.LeadsTo heading) := by
  -- Only the step out of the last word is new.
  refine List.isChain_append.mpr ⟨straight, by simp, ?_⟩
  intro x isLast y isFirst
  rw [ends] at isLast
  cases isLast
  cases isFirst
  exact reached

/-- A draft that opens a sentence goes on opening it with each word before the first predicate. -/
theorem Opens.read (opens : draft.Opens board config) {word : PlacedWord} {phase : Phase}
    (reaches : draft.Reaches board word)
    (opening : Opening config phase (draft.phrase.words ++ [word])) :
    (draft.read word phase).Opens board config := by
  -- Each clause follows from what could be read next.
  constructor
  · intro other member
    rw [words_read, List.mem_append, List.mem_singleton] at member
    rcases member with member | rfl
    · exact opens.shown other member
    · exact reaches.shows
  · rw [words_read]
    exact nodup_append_word opens.distinct (mt mem_places_iff.mpr reaches.free)
  · rw [words_read]
    exact straight_append_word opens.straight getLast?_words reaches.reached
  · rw [words_read]
    exact opening

/-- Nouns of which a relation allows every one as a subject are subjects of the relation. -/
theorem admits_of_allowed {words : List PlacedWord} {relation : Relation}
    (joined : Joined .subject Word.isNoun words)
    (allowed : (Phrase.mk words).subjects.all relation.allowsSubject = true) :
    Joined .subject relation.admits words := by
  -- Every noun in the part of a subject is one of the subjects of the phrase.
  refine joined.imp fun word member inPart noun => ?_
  unfold Word.isNoun at noun
  obtain ⟨category, named⟩ := Option.isSome_iff_exists.mp noun
  have listed : category ∈ (Phrase.mk words).subjects :=
    List.mem_filterMap.mpr ⟨word, List.mem_filter.mpr ⟨member, by simp [inPart]⟩, named⟩
  have allows := List.all_eq_true.mp allowed category listed
  simp [Relation.admits, named, allows]

/-- The subjects that a relation admits are all allowed. -/
theorem allowed_of_admits {words : List PlacedWord} {relation : Relation}
    (joined : Joined .subject relation.admits words) :
    (Phrase.mk words).subjects.all relation.allowsSubject = true := by
  -- Whatever counts as a subject of the phrase is no conjunction of the block.
  refine List.all_eq_true.mpr fun category listed => ?_
  obtain ⟨word, filtered, named⟩ := List.mem_filterMap.mp listed
  obtain ⟨member, inPart⟩ := List.mem_filter.mp filtered
  rcases joined.mem word member with isJoint | ⟨_, admitted⟩
  · rw [isJoint.1] at inPart
    cases inPart
  · simpa [Relation.admits, named] using admitted

/-- A draft that opens a sentence goes on opening it until it has read the first predicate. -/
theorem Opens.grow (opens : draft.Opens board config)
    (grows : draft.Grows board config draft.phase fork) :
    fork.Opens board config ∨ ∃ parse, fork.Traces board config parse := by
  have opening := opens.opening
  -- The word that is read extends the opening by one, in each phase in its own way.
  generalize draft.phase = phase at grows opening
  cases grows with
  | relation reaches inPart states allowed =>
    cases opening with
    | subject joined chained =>
      exact .inl (opens.read reaches (.relation (admits_of_allowed joined allowed) chained inPart
        states))
  | conjunction reaches isJoint joins =>
    cases opening with
    | subject joined _ => exact .inl (opens.read reaches (.conjunction joined joins isJoint))
  | @subject word reaches inPart noun =>
    generalize same : draft.phrase.words = words at opening
    cases opening with
    | @conjunction subjects joint joined joins isJoint =>
      refine .inl (opens.read reaches ?_)
      rw [same, List.append_assoc]
      exact .subject (joined.append isJoint (.single inPart noun)) (.inl joins)
  | @predicate word relation reaches inPart allowed =>
    generalize same : draft.phrase.words = words at opening
    cases opening with
    | @relation subjects verb _ joined chained verbPart states =>
      -- The first predicate makes the sentence, which has been straight so far.
      let parse : Parse := ⟨subjects, verb, [word], relation, draft.heading, draft.heading⟩
      have words : parse.words = draft.phrase.words ++ [word] := by
        simp [parse, Parse.words, same]
      refine .inr ⟨parse, ?_, words.trans words_read.symm, rfl, rfl⟩
      constructor
      · rw [words]
        intro other member
        rcases List.mem_append.mp member with member | added
        · exact opens.shown other member
        · exact List.mem_singleton.mp added ▸ reaches.shows
      · rw [words]
        exact nodup_append_word opens.distinct (mt mem_places_iff.mpr reaches.free)
      · exact joined
      · exact chained
      · exact verbPart
      · exact states
      · exact .single inPart allowed
      · change parse.words.IsChain _
        rw [words]
        exact straight_append_word opens.straight getLast?_words reaches.reached
      · exact .stay
  | joined => cases opening

/-- A draft that has read a sentence grows in the ways in which the sentence continues. -/
theorem Traces.grows_iff {parse : Parse} (traces : draft.Traces board config parse) :
    draft.Grows board config draft.phase fork ↔ ∃ joint next turned,
      parse.Continues board.Shows config joint next turned ∧
        fork = ⟨next, joint :: draft.trail, turned, .predicate parse.relation⟩ := by
  -- Both sides ask for the same: words that show, a path to them, and free places.
  have places {place : Cell × SentencePart} :
      place ∈ draft.places ↔ place ∈ parse.words.map PlacedWord.place := by
    rw [traces.words, mem_places_iff]
  rw [traces.phase]
  constructor
  · intro grows
    -- Only a conjunction can follow, since a predicate was read last.
    cases grows with
    | joined reaches isJoint mayTurn left shows free inPart allowed =>
      refine ⟨_, _, _, ?_, rfl⟩
      rw [traces.heading] at mayTurn
      refine ⟨reaches.shows, shows, isJoint, inPart, allowed, ⟨draft.last, ?_, ?_⟩, mayTurn, left,
        mt places.mpr reaches.free, mt places.mpr free⟩
      · rw [traces.words, getLast?_words]
      · rw [← traces.heading]
        exact reaches.reached
  · intro found
    obtain ⟨joint, next, turned, continues, rfl⟩ := found
    -- The path goes on from the word that the draft has read last.
    obtain ⟨last, ends, reached⟩ := continues.path
    rw [traces.words, getLast?_words] at ends
    cases ends
    rw [← traces.heading] at reached
    exact .joined ⟨continues.showJoint, reached, mt places.mp continues.freeJoint⟩
      continues.isJoint (traces.heading ▸ continues.mayTurn) continues.left continues.showNext
      (mt places.mp continues.freeNext) continues.inPart continues.allowed

/-- A draft that has read a sentence goes on to longer ones. -/
theorem Traces.grow {parse : Parse} (traces : draft.Traces board config parse)
    (grows : draft.Grows board config draft.phase fork) :
    ∃ longer, fork.Traces board config longer := by
  -- Every growth of a complete draft is a conjunction with a predicate.
  obtain ⟨joint, next, turned, continues, rfl⟩ := traces.grows_iff.mp grows
  refine ⟨parse.extend joint next turned, traces.valid.extend continues, ?_, rfl, rfl⟩
  rw [Parse.words_extend, traces.words]
  simp [phrase, trail]

/-- Whatever a search reads is a sentence or the opening of one. -/
theorem Reached.sound (reached : draft.Reached board config) :
    draft.Opens board config ∨ ∃ parse, draft.Traces board config parse := by
  -- By induction along the drafts of the search, each step keeping what the one before has read.
  induction reached with
  | start begins =>
    obtain ⟨word, heading, shows, inPart, noun, rfl⟩ := mem_starts_iff.mp begins
    refine .inl ⟨?_, by simp [phrase, trail], by simp [phrase, trail], ?_⟩
    · intro other member
      exact (List.mem_singleton.mp member) ▸ shows
    · exact .subject (.single inPart noun) (.inr rfl)
  | grow _ grows ih =>
    rcases ih with opens | ⟨parse, traces⟩
    · exact opens.grow grows
    · exact .inr (traces.grow grows)

/-- A place that comes later among different places is free. -/
theorem free_of_nodup {rest : List PlacedWord}
    (distinct : ((draft.phrase.words ++ rest).map PlacedWord.place).Nodup) :
    ∀ word ∈ rest, word.place ∉ draft.places := by
  -- A place that was taken would occur twice.
  intro word member taken
  rw [List.map_append] at distinct
  exact (List.nodup_append.mp distinct).2.2 _ (mem_places_iff.mp taken) _
    (List.mem_map_of_mem member) rfl

/-- Every subject that is joined on a straight line is read. -/
theorem Reached.subjects {block rest : List PlacedWord} (reached : draft.Reached board config)
    (joined : Joined .subject Word.isNoun block) (phase : draft.phase = .subject)
    (begins : block = draft.last :: rest) (chained : config.joinsSubjects = true ∨ rest = [])
    (shown : ∀ word ∈ rest, board.Shows word)
    (distinct : ((draft.phrase.words ++ rest).map PlacedWord.place).Nodup)
    (straight : block.IsChain (PlacedWord.LeadsTo draft.heading)) :
    ∃ fork : Draft, fork.Reached board config ∧ fork.phase = .subject ∧
      fork.heading = draft.heading ∧ fork.phrase.words = draft.phrase.words ++ rest := by
  -- By induction on the block, two words at a time.
  induction joined generalizing draft rest with
  | single =>
    cases begins
    exact ⟨draft, reached, phase, rfl, by simp⟩
  | @join word joint later inPart passes isJoint further ih =>
    cases begins
    have joins : config.joinsSubjects = true := chained.resolve_right (by simp)
    obtain ⟨next, tail, rfl, nextPart, noun⟩ := further.exists_first
    obtain ⟨toJoint, straight⟩ := List.isChain_cons_cons.mp straight
    obtain ⟨toNext, _⟩ := List.isChain_cons_cons.mp straight
    -- First the conjunction is read, then the subject behind it.
    have reachesJoint : draft.Reaches board joint :=
      ⟨shown joint (by simp), toJoint, free_of_nodup distinct joint (by simp)⟩
    have one : Reached board config (draft.read joint .conjunction) :=
      reached.grow (phase ▸ .conjunction reachesJoint isJoint joins)
    have distinct : (((draft.read joint .conjunction).phrase.words ++ next :: tail).map
        PlacedWord.place).Nodup := by
      simpa using distinct
    have reachesNext : (draft.read joint .conjunction).Reaches board next :=
      ⟨shown next (by simp), toNext, free_of_nodup distinct next (by simp)⟩
    have two : Reached board config ((draft.read joint .conjunction).read next .subject) :=
      one.grow (.subject reachesNext nextPart noun)
    obtain ⟨fork, reached, phase, heading, words⟩ := ih two rfl rfl (.inl joins)
      (fun word member => shown word (by simp [member])) (by simpa using distinct)
      (List.isChain_of_isChain_cons straight)
    refine ⟨fork, reached, phase, heading, ?_⟩
    rw [words]
    simp

/-- Every predicate that is joined on a winding path is read. -/
theorem Reached.predicates {relation : Relation} {block rest : List PlacedWord} {final : Direction}
    (reached : draft.Reached board config) (winds : Winds config draft.heading block final)
    (phase : draft.phase = .predicate relation) (begins : block = draft.last :: rest)
    (joined : Joined .predicate relation.allowsPredicate block)
    (shown : ∀ word ∈ rest, board.Shows word)
    (distinct : ((draft.phrase.words ++ rest).map PlacedWord.place).Nodup) :
    ∃ fork : Draft, fork.Reached board config ∧ fork.phase = .predicate relation ∧
      fork.heading = final ∧ fork.phrase.words = draft.phrase.words ++ rest := by
  -- By induction on the path, two words at a time.
  generalize same : draft.heading = heading at winds
  induction winds generalizing draft rest with
  | stay =>
    cases begins
    exact ⟨draft, reached, phase, same, by simp⟩
  | @turn heading turned final word joint next tail toJoint mayTurn toNext _ ih =>
    cases begins
    subst same
    cases joined with
    | join _ _ isJoint further =>
      obtain ⟨_, _, same, nextPart, allowed⟩ := further.exists_first
      cases same
      -- The conjunction and the predicate behind it are read in one step, turn and all.
      have free := free_of_nodup distinct
      have reachesJoint : draft.Reaches board joint :=
        ⟨shown joint (by simp), toJoint, free joint (by simp)⟩
      have both : Reached board config ⟨next, joint :: draft.trail, turned, .predicate relation⟩ :=
        reached.grow (phase ▸ .joined reachesJoint isJoint mayTurn toNext (shown next (by simp))
          (free next (by simp)) nextPart allowed)
      have words :
          (Draft.mk next (joint :: draft.trail) turned (.predicate relation)).phrase.words =
            draft.phrase.words ++ [joint, next] := by
        simp [phrase, trail]
      obtain ⟨fork, reached, phase, heading, all⟩ := ih both rfl rfl further
        (fun word member => shown word (by simp [member]))
        (by rw [words]; simpa using distinct) rfl
      refine ⟨fork, reached, phase, heading, ?_⟩
      rw [all, words]
      simp

/-- The subjects of a sentence are read by some draft. -/
theorem exists_reached_subjects {parse : Parse} (valid : parse.Valid board.Shows config) :
    ∃ draft : Draft, draft.Reached board config ∧ draft.phase = .subject ∧
      draft.heading = parse.heading ∧ draft.phrase.words = parse.subjects := by
  -- The search begins at the first subject and reads all of them.
  obtain ⟨first, subjects, split, inPart, admitted⟩ := valid.subjects.exists_first
  have noun : first.word.isNoun = true := Relation.isNoun_of_admits admitted
  have shown : ∀ word ∈ parse.subjects, board.Shows word :=
    fun word member => valid.shown word (List.mem_append_left _ member)
  -- It is a noun that shows, and so a search starts there in each direction.
  have begins : Draft.mk first [] parse.heading .subject ∈ Agenda.starts board :=
    mem_starts_iff.mpr ⟨first, parse.heading, shown first (by simp [split]), inPart, noun, rfl⟩
  have nouns : Joined .subject Word.isNoun parse.subjects :=
    valid.subjects.imp fun _ _ _ admitted => Relation.isNoun_of_admits admitted
  have chained : config.joinsSubjects = true ∨ subjects = [] := by
    simpa [split] using valid.chained
  -- The places of the subjects are some of those of the sentence.
  have distinct : (parse.subjects.map PlacedWord.place).Nodup := by
    have distinct := valid.distinct
    rw [Parse.words, List.map_append] at distinct
    exact (List.nodup_append.mp distinct).1
  have words : (Draft.mk first [] parse.heading .subject).phrase.words ++ subjects =
      parse.subjects := by
    rw [split]
    rfl
  rw [← words] at distinct
  obtain ⟨draft, reached, phase, heading, read⟩ := (Reached.start begins).subjects nouns rfl split
    chained (fun word member => shown word (by simp [split, member])) distinct
    valid.straight.left_of_append
  exact ⟨draft, reached, phase, heading, read.trans words⟩

/-- Every sentence is read by some draft. -/
theorem exists_reached {parse : Parse} (valid : parse.Valid board.Shows config) :
    ∃ draft : Draft, draft.Reached board config ∧ draft.phase = .predicate parse.relation ∧
      draft.heading = parse.final ∧ draft.phrase.words = parse.words := by
  obtain ⟨one, reached, phase, heading, read⟩ := exists_reached_subjects valid
  obtain ⟨object, objects, predicates, inPart, allowed⟩ := valid.predicates.exists_first
  have words : parse.words = one.phrase.words ++ parse.verb :: object :: objects := by
    rw [Parse.words, predicates, read]
  have shown := valid.shown
  have distinct := valid.distinct
  rw [words] at shown distinct
  -- After the subjects the relation is read.
  have toVerb : one.last.LeadsTo one.heading parse.verb := by
    obtain ⟨before, last, split, reaches⟩ := valid.reaches_verb
    have ends : one.phrase.words.getLast? = some last := by
      rw [read, split, List.getLast?_concat]
    rw [getLast?_words] at ends
    cases ends
    rw [heading]
    exact reaches
  have reachesVerb : one.Reaches board parse.verb :=
    ⟨shown _ (by simp), toVerb, free_of_nodup distinct _ (by simp)⟩
  have two : Reached board config (one.read parse.verb (.relation parse.relation)) := by
    have all := allowed_of_admits valid.subjects
    rw [← read] at all
    exact reached.grow (phase ▸ .relation reachesVerb valid.verbPart valid.verbWord all)
  -- After the relation the first predicate is read.
  have toObject : parse.verb.LeadsTo one.heading object := by
    have straight := valid.straight
    rw [predicates, List.take_succ_cons, List.take_zero] at straight
    rw [heading]
    exact (List.isChain_cons_cons.mp straight.right_of_append).1
  have distinctObject : (((one.read parse.verb (.relation parse.relation)).phrase.words ++
      object :: objects).map PlacedWord.place).Nodup := by
    simpa using distinct
  have reachesObject : (one.read parse.verb (.relation parse.relation)).Reaches board object :=
    ⟨shown _ (by simp), toObject, free_of_nodup distinctObject _ (by simp)⟩
  have three := two.grow (.predicate reachesObject inPart allowed)
  -- From there the predicates are read along their path.
  have winds : Winds config one.heading (object :: objects) parse.final := by
    rw [heading, ← predicates]
    exact valid.winds
  have joined := valid.predicates
  rw [predicates] at joined
  obtain ⟨draft, reached, phase, final, all⟩ := three.predicates winds rfl rfl
    joined (fun word member => shown word (by simp [member])) (by simpa using distinctObject)
  refine ⟨draft, reached, phase, final, ?_⟩
  rw [all, words]
  simp

end Draft

namespace Agenda

open Draft Sentence

variable {board : Board} {config : Config}

/-- The agenda finds the maximal sentences of a board. -/
theorem mem_readings_iff_isMaximal {phrase : Phrase} :
    phrase ∈ (starts board).flatMap (readings board config) ↔
      IsMaximal board.Shows config phrase.words := by
  rw [mem_sentences_iff]
  constructor
  · intro found
    obtain ⟨draft, reached, complete, stuck, rfl⟩ := found
    rcases reached.sound with opens | ⟨parse, traces⟩
    · -- A complete draft no longer opens a sentence.
      have opening := opens.opening
      generalize draft.phrase.words = words at opening
      unfold isComplete at complete
      generalize draft.phase = phase at opening complete
      cases opening <;> cases complete
    · -- A continuation of the sentence would be a fork of the draft, which has none.
      rw [← traces.words]
      refine traces.valid.isMaximal_iff.mpr ?_
      intro joint next turned continues
      obtain ⟨forks, built, grows⟩ := forks_spec config reached.shows.1
      rw [stuck] at built
      cases built
      exact List.not_mem_nil ((grows _).mpr (traces.grows_iff.mpr ⟨_, _, _, continues, rfl⟩))
  · -- Some draft reads the sentence, and a fork of it would continue the sentence.
    intro maximal
    obtain ⟨parse, valid, words⟩ := maximal.1
    obtain ⟨draft, reached, phase, heading, read⟩ := exists_reached valid
    have traces : draft.Traces board config parse := ⟨valid, read.symm, phase, heading⟩
    refine ⟨draft, reached, by simp [isComplete, phase], ?_, congrArg Phrase.mk (read.trans words)⟩
    obtain ⟨forks, built, grows⟩ := forks_spec config reached.shows.1
    have none : forks = [] := by
      refine List.eq_nil_iff_forall_not_mem.mpr fun fork member => ?_
      obtain ⟨joint, next, turned, continues, _⟩ := traces.grows_iff.mp ((grows fork).mp member)
      rw [← words] at maximal
      exact valid.isMaximal_iff.mp maximal joint next turned continues
    rw [built, none]

/-- The agenda of a board finds its maximal sentences, each once. -/
theorem sentences_spec (single : board.Single) (config : Config) :
    ∃ found, sentences board config = .ok found ∧ found.Nodup ∧
      ∀ phrase : Phrase, phrase ∈ found ↔ IsMaximal board.Shows config phrase.words :=
  -- That the search ends, lists nothing twice and lists these sentences are three lemmas.
  ⟨_, sentences_eq, nodup_sentences single.nodup, fun _ => mem_readings_iff_isMaximal⟩

end Agenda

namespace World

open Sentence

/-- The board of a consistent world shows the words of its entities. -/
theorem Consistent.board_shows {world : World} (consistent : world.Consistent) :
    world.board.Shows = world.Shows :=
  -- Words show one by one on both.
  funext fun _ => propext consistent.board_shows_iff

/-- On every world that a host can bring about the agenda finds exactly the maximal sentences, each
of them once. -/
theorem Reachable.sentences_eq_maximal {world : World} (reachable : world.Reachable)
    (config : Config) :
    ∃ found, Agenda.sentences world.board config = .ok found ∧ found.Nodup ∧
      ∀ phrase : Phrase, phrase ∈ found ↔ IsMaximal world.Shows config phrase.words := by
  -- The theorem about boards applies, since what shows on the board shows in the world.
  have consistent := reachable.consistent
  rw [← consistent.board_shows]
  exact Agenda.sentences_spec consistent.single_board config

/-- A row of three words that make a sentence has this one sentence. -/
theorem sentences_of_row : ∃ world found, World.row [.rock, .is, .push] = .ok world ∧
    Agenda.sentences world.board .standard = .ok found ∧
      found.map Phrase.spelling = [[.rock, .is, .push]] ∧ found.Nodup ∧
        ∀ phrase : Phrase, phrase ∈ found ↔ IsMaximal world.Shows .standard phrase.words := by
  -- The sentences are computed, and what they are is known from the theorem.
  obtain ⟨world, built⟩ : ∃ world, World.row [.rock, .is, .push] = .ok world := ⟨_, rfl⟩
  obtain ⟨found, searched, nodup, maximal⟩ :=
    (Reachable.row built).sentences_eq_maximal Config.standard
  refine ⟨world, found, built, searched, ?_, nodup, maximal⟩
  have spelled : (do
      let world ← World.row [.rock, .is, .push]
      let found ← Agenda.sentences world.board .standard
      return found.map Phrase.spelling : Except Error _) = .ok [[.rock, .is, .push]] := by
    cbv
  rw [built] at spelled
  simp only [searched, Bind.bind, Except.bind, Pure.pure, Except.pure, Except.ok.injEq] at spelled
  exact spelled

end World

end WordTiles
