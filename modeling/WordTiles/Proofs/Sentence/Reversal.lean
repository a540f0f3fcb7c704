import WordTiles.Proofs.Sentence.Overlap

/-! Sentences read backwards: what can be read in both directions lies on a straight line, and of
the two directions one reads forward. -/

namespace WordTiles

/-- The part that a word plays when its sentence is read backwards. -/
def SentencePart.turned : SentencePart → SentencePart
  -- Relation and conjunction read the same from either side.
  | .subject => .predicate
  | .predicate => .subject
  | part => part

namespace PlacedWord

/-- The word as it is read backwards. -/
def turned (word : PlacedWord) : PlacedWord :=
  -- Tile and place stay; only the part changes.
  { word with part := word.part.turned }

@[simp] theorem turned_turned (word : PlacedWord) : word.turned.turned = word := by
  -- Exchanging two parts twice exchanges nothing.
  obtain ⟨spelled, position, entity, part⟩ := word
  cases part <;> rfl

@[simp] theorem word_turned (word : PlacedWord) : word.turned.word = word.word := rfl

@[simp] theorem part_turned (word : PlacedWord) : word.turned.part = word.part.turned := rfl

/-- Only the part differs, which does not matter to a board. -/
@[simp] theorem shows_turned {board : Board} {word : PlacedWord} :
    board.Shows word.turned ↔ board.Shows word := Iff.rfl

/-- Only subjects and predicates are read differently. -/
theorem turned_eq_self {word : PlacedWord} (same : word.part.turned = word.part) :
    word.turned = word := by
  -- The part is all that could differ.
  rw [turned, same]

/-- A conjunction stays one. -/
theorem IsJoint.turned {word : PlacedWord} (isJoint : word.IsJoint) : word.turned.IsJoint :=
  -- Its part is kept, and so is its word.
  ⟨by rw [part_turned, isJoint.1]; rfl, isJoint.2⟩

/-- A word takes the place of another when their parts are exchanged as well. -/
theorem place_turned_eq {word other : PlacedWord} (same : word.place = other.turned.place) :
    word.turned.place = other.place := by
  -- The cells agree, and exchanging the parts twice gives them back.
  obtain ⟨_, _, _, part⟩ := word
  obtain ⟨_, _, _, part'⟩ := other
  simp only [place, turned, Prod.mk.injEq] at same ⊢
  refine ⟨same.1, ?_⟩
  rw [same.2]
  cases part' <;> rfl

end PlacedWord

namespace Sentence

/-- The words in the opposite order, subjects and predicates exchanged. -/
def backwards (words : List PlacedWord) : List PlacedWord :=
  -- The words turn one by one, and their order turns as well.
  (words.map PlacedWord.turned).reverse

@[simp] theorem backwards_nil : backwards [] = [] := rfl

@[simp] theorem backwards_cons {word : PlacedWord} {rest : List PlacedWord} :
    backwards (word :: rest) = backwards rest ++ [word.turned] := by
  -- The first word comes last.
  simp [backwards]

@[simp] theorem backwards_append {words others : List PlacedWord} :
    backwards (words ++ others) = backwards others ++ backwards words := by
  -- The second part comes first.
  simp [backwards]

@[simp] theorem backwards_backwards (words : List PlacedWord) :
    backwards (backwards words) = words := by
  -- The induction takes one word from the front, which is put at the end and brought back.
  induction words with
  | nil => rfl
  | cons word rest ih => simp [ih]

@[simp] theorem backwards_eq_nil_iff {words : List PlacedWord} :
    backwards words = [] ↔ words = [] := by
  -- No word gets lost.
  simp [backwards]

/-- The tiles come in the opposite order. -/
@[simp] theorem entities_backwards (words : List PlacedWord) :
    (backwards words).map (·.entity) = (words.map (·.entity)).reverse := by
  -- A word that is turned keeps its entity.
  rw [backwards, List.map_reverse, List.map_map]
  rfl

/-- The words that are read backwards are those of the sentence. -/
theorem mem_backwards_iff {word : PlacedWord} {words : List PlacedWord} :
    word ∈ backwards words ↔ word.turned ∈ words := by
  -- Turning a word twice gives it back.
  rw [backwards, List.mem_reverse, List.mem_map]
  constructor
  · intro found
    obtain ⟨other, member, rfl⟩ := found
    rwa [PlacedWord.turned_turned]
  · intro member
    exact ⟨word.turned, member, word.turned_turned⟩

/-- Backwards, a straight line goes in the opposite direction. -/
theorem straight_backwards {words : List PlacedWord} {heading : Direction}
    (straight : words.IsChain (PlacedWord.LeadsTo heading)) :
    (backwards words).IsChain (PlacedWord.LeadsTo heading.opposite) := by
  -- Every single step is reversed.
  rw [backwards, List.isChain_reverse, List.isChain_map]
  exact straight.imp fun _ _ leads => Cell.neighbor_opposite leads

/-- Words that show in one part show in the other when they are read backwards. -/
theorem reads_backwards {board : Board} {part : SentencePart} {words : List PlacedWord}
    (reads : board.Reads part words) : board.Reads part.turned (backwards words) := by
  -- The word itself is kept, so that a conjunction is still read as one.
  intro word member
  obtain ⟨shows, inPart⟩ := reads word.turned (mem_backwards_iff.mp member)
  refine ⟨shows, ?_⟩
  rw [← word.turned_turned, PlacedWord.part_turned, inPart, PlacedWord.word_turned,
    PlacedWord.turned_turned]
  split <;> rfl

/-- A straight path ends in the direction in which it begins. -/
theorem Winds.final_eq {config : Config} {heading final : Direction} {words : List PlacedWord}
    (winds : Winds config heading words final)
    (straight : words.IsChain (PlacedWord.LeadsTo heading)) : final = heading := by
  -- Every turn of the path is one of the straight line.
  induction winds with
  | stay => rfl
  | turn _ _ left _ ih =>
    have straight := (List.isChain_cons_cons.mp straight).2
    obtain ⟨again, straight⟩ := List.isChain_cons_cons.mp straight
    cases Cell.direction_unique left again
    exact ih straight

/-- A relation that allows one noun as a predicate allows every noun. -/
theorem allowsPredicate_of_isNoun {relation : Relation} {word other : Word}
    (allowed : relation.allowsPredicate word = true) (noun : word.isNoun = true)
    (another : other.isNoun = true) : relation.allowsPredicate other = true := by
  -- A relation of abilities allows no noun, and the two others allow every one.
  unfold Word.isNoun at noun another
  cases relation with
  | is => simp [Relation.allowsPredicate, another]
  | am => simp [Relation.allowsPredicate, another]
  | can => cases word <;> simp_all [Relation.allowsPredicate, Word.ability?, Word.category?]

namespace Joined

variable {part : SentencePart} {test read : Word → Bool} {words : List PlacedWord}

/-- The words of a block that are read in its part pass its test. -/
theorem passes (joined : Joined part test words) (proper : part ≠ .conjunction) {word : PlacedWord}
    (member : word ∈ words) (inPart : word.part = part) : test word.word = true := by
  -- The only other words of a block are conjunctions, which are in no such part.
  rcases joined.mem word member with isJoint | ⟨_, passes⟩
  · exact absurd (inPart.symm.trans isJoint.1) proper
  · exact passes

/-- A block read backwards is a block in the opposite part if its words pass the test there. -/
theorem backwards (joined : Joined part test words)
    (passes : ∀ word ∈ words, word.part = part → read word.word = true) :
    Joined part.turned read (backwards words) := by
  -- Reversing a block keeps the joints between its words.
  refine joined.reverse (fun _ _ isJoint => isJoint.turned) ?_
  intro word member inPart _
  exact ⟨congrArg SentencePart.turned inPart, passes word member inPart⟩

/-- They do if they are among words that are joined there. -/
theorem backwards_of_subset (joined : Joined part test words) (proper : part.turned ≠ .conjunction)
    {block : List PlacedWord} (another : Joined part.turned read block)
    (within : Sentence.backwards words ⊆ block) :
    Joined part.turned read (Sentence.backwards words) := by
  -- Each of the words stands in the other block in this part, and so it has passed the test.
  refine joined.backwards fun word member inPart => ?_
  have listed : word.turned ∈ block :=
    within (mem_backwards_iff.mpr (by rwa [PlacedWord.turned_turned]))
  have passes := another.passes proper listed (congrArg SentencePart.turned inPart)
  exact passes

end Joined

namespace Parse.Valid

variable {board : Board} {config : Config} {parse other : Parse}

/-- Backwards, the predicates come first and the relation word stays in the middle. -/
theorem backwards_words (valid : parse.Valid board.Shows config) :
    backwards parse.words =
      backwards parse.predicates ++ parse.verb :: backwards parse.subjects := by
  -- The relation word is turned into itself.
  have verb : parse.verb.turned = parse.verb :=
    PlacedWord.turned_eq_self (by rw [valid.verbPart]; rfl)
  rw [words, backwards_append, backwards_cons, verb, List.append_assoc, List.singleton_append]

/-- Two sentences of which one ends its subjects with the predicates of the other, backwards, and
has the same relation word, go in opposite directions, and the other one is straight. -/
theorem opposite (valid : parse.Valid board.Shows config) (another : other.Valid board.Shows config)
    {before : List PlacedWord} (subjects : other.subjects = before ++ backwards parse.predicates)
    (verb : other.verb = parse.verb) :
    parse.heading = other.heading.opposite ∧ parse.final = other.heading.opposite := by
  -- Backwards, the line from the predicates to the relation word leads out of it.
  have straight := another.straight
  rw [subjects, List.append_assoc, ← List.singleton_append, ← List.append_assoc (backwards _)]
    at straight
  have line := straight_backwards straight.right_of_append.left_of_append
  rw [backwards_append, backwards_backwards, backwards_cons, backwards_nil, List.nil_append, verb,
    List.singleton_append] at line
  obtain ⟨first, rest, split⟩ := valid.exists_first
  -- The first step behind the relation word tells both headings.
  have heading : parse.heading = other.heading.opposite := by
    have straight := valid.straight
    rw [split, List.take_succ_cons, List.take_zero] at straight
    have one := (List.isChain_cons_cons.mp straight.right_of_append).1
    rw [split] at line
    exact Cell.direction_unique one (List.isChain_cons_cons.mp line).1
  refine ⟨heading, ?_⟩
  have winds := valid.winds
  rw [heading] at winds
  exact winds.final_eq (List.isChain_of_isChain_cons line)

/-- A sentence whose tiles occur backwards within another has its subjects among the predicates of
the other and its predicates among the subjects. -/
theorem across (single : board.Single) (valid : parse.Valid board.Shows config)
    (another : other.Valid board.Shows config) {front back : List EntityId}
    (same : other.words.map (·.entity) = front ++ (parse.words.map (·.entity)).reverse ++ back) :
    ∃ before after, other.subjects = before ++ backwards parse.predicates ∧
      other.verb = parse.verb ∧ other.relation = parse.relation ∧
        other.predicates = backwards parse.subjects ++ after ∧
          before.map (·.entity) = front ∧ after.map (·.entity) = back := by
  -- Read backwards, the sentence is a list of blocks of the kind that sentences align with.
  rw [← entities_backwards, valid.backwards_words] at same
  exact valid.align single another (reads_backwards valid.reads_predicates)
    (reads_backwards valid.reads_subjects) same

/-- Words before a sentence, in one that goes back over it, have places that are free for the
sentence. -/
theorem free_of_before (another : other.Valid board.Shows config) {before after : List PlacedWord}
    (words : other.words = before ++ (backwards parse.words ++ after)) :
    ∀ word ∈ before, word.turned.place ∉ parse.words.map PlacedWord.place := by
  -- A word that takes such a place stands in the other sentence too, with its part exchanged.
  intro word member taken
  obtain ⟨reader, listed, same⟩ := List.mem_map.mp taken
  have distinct := another.distinct
  rw [words, List.map_append] at distinct
  have back : reader.turned ∈ backwards parse.words ++ after :=
    List.mem_append_left _ (mem_backwards_iff.mpr (by rwa [PlacedWord.turned_turned]))
  exact (List.nodup_append.mp distinct).2.2 _ (List.mem_map_of_mem member) _
    (List.mem_map_of_mem back) (PlacedWord.place_turned_eq same).symm

/-- A subject and its conjunction right before the predicates of a sentence, in the subjects of one
that goes back over it, continue the sentence. -/
theorem continues_back (valid : parse.Valid board.Shows config)
    (another : other.Valid board.Shows config) {earlier after : List PlacedWord}
    {subject joint : PlacedWord} (isJoint : joint.IsJoint) (inPart : subject.part = .subject)
    (admitted : other.relation.admits subject.word = true)
    (subjects : other.subjects = earlier ++ [subject, joint] ++ backwards parse.predicates)
    (verb : other.verb = parse.verb)
    (predicates : other.predicates = backwards parse.subjects ++ after) :
    parse.Continues board.Shows config joint subject.turned parse.final := by
  obtain ⟨_, final⟩ := valid.opposite another subjects verb
  have words : other.words =
      earlier ++ [subject, joint] ++ (backwards parse.words ++ after) := by
    rw [Parse.words, subjects, verb, predicates, valid.backwards_words]
    simp
  -- Both words show, and both of their places are free.
  have shown : ∀ word ∈ [subject, joint], board.Shows word :=
    fun word member => another.shown word (by simp only [words, List.mem_append, member, or_true,
      true_or])
  have free : ∀ word ∈ [subject, joint], word.turned.place ∉ parse.words.map PlacedWord.place :=
    fun word member => free_of_before another words word (List.mem_append_right earlier member)
  -- The sentence ends with the word next to the conjunction, and a step back from there is a step
  -- on.
  obtain ⟨before, last, ends, lastPart, allowed⟩ := valid.predicates.exists_last
  have straight := another.straight.left_of_append
  rw [subjects, ends, backwards_append, backwards_cons, backwards_nil, List.nil_append,
    List.append_assoc, List.singleton_append] at straight
  obtain ⟨left, line⟩ := List.isChain_cons_cons.mp straight.right_of_append
  obtain ⟨reached, _⟩ := List.isChain_cons_cons.mp line
  -- The last predicate is a subject there, so the relation allows nouns as predicates.
  have listed : last.turned ∈ other.subjects := by
    simp [subjects, ends]
  have noun := Relation.isNoun_of_admits
    (another.subjects.passes (by decide) listed (congrArg SentencePart.turned lastPart))
  -- Each condition on a continuation is one of these facts.
  constructor
  · exact shown joint (by simp)
  · exact shown subject (by simp)
  · exact isJoint
  · rw [PlacedWord.part_turned, inPart]
    rfl
  · exact allowsPredicate_of_isNoun allowed noun (Relation.isNoun_of_admits admitted)
  · refine ⟨last, ?_, ?_⟩
    · rw [valid.getLast?_words, ends, List.getLast?_concat]
    · rw [final]
      exact Cell.neighbor_opposite reached
  · exact .inl rfl
  · rw [final]
    exact Cell.neighbor_opposite left
  · have place := free joint (by simp)
    rwa [PlacedWord.turned_eq_self (by rw [isJoint.1]; rfl)] at place
  · exact free subject (by simp)

end Parse.Valid

variable {board : Board} {config : Config} {words longer : List PlacedWord}

/-- A sentence that goes back over a maximal one begins with it, backwards. -/
theorem IsMaximal.back (single : board.Single) (maximal : IsMaximal board.Shows config words)
    (sentence : IsSentence board.Shows config longer) {front rest : List EntityId}
    (same : longer.map (·.entity) = front ++ (words.map (·.entity)).reverse ++ rest) :
    front = [] ∧ ∃ after, longer = backwards words ++ after ∧ after.map (·.entity) = rest := by
  obtain ⟨parse, valid, rfl⟩ := maximal.1
  obtain ⟨other, another, rfl⟩ := sentence
  obtain ⟨before, after, subjects, verb, relation, predicates, fronts, rests⟩ :=
    valid.across single another same
  -- Any word before it would continue the maximal sentence.
  have begins : before = [] := by
    by_contra more
    have joined := another.subjects
    rw [subjects] at joined
    have block : Joined .subject other.relation.admits (backwards parse.predicates) :=
      valid.predicates.backwards_of_subset (by decide) joined (List.subset_append_right _ _)
    obtain ⟨earlier, subject, joint, rfl, isJoint, inPart, admitted⟩ := block.previous joined more
    exact valid.isMaximal_iff.mp maximal joint subject.turned parse.final
      (valid.continues_back another isJoint inPart admitted subjects verb predicates)
  subst begins
  refine ⟨fronts.symm, after, ?_, rests⟩
  rw [Parse.words, subjects, verb, predicates, valid.backwards_words]
  simp

/-- A sentence that begins with another one, backwards, tells that the other is a sentence in both
directions. -/
theorem IsSentence.back (single : board.Single) (sentence : IsSentence board.Shows config words)
    {after : List PlacedWord} (longer : IsSentence board.Shows config (backwards words ++ after)) :
    IsSentence board.Shows config (backwards words) := by
  -- What comes after the reversal is cut off from the predicates.
  obtain ⟨parse, valid, rfl⟩ := sentence
  obtain ⟨other, another, begins⟩ := longer
  have same : other.words.map (·.entity) =
      [] ++ (parse.words.map (·.entity)).reverse ++ after.map (·.entity) := by
    simp [begins]
  obtain ⟨before, rest, subjects, verb, _, predicates, fronts, _⟩ :=
    valid.across single another same
  cases List.map_eq_nil_iff.mp fronts
  have joined := another.predicates
  rw [predicates] at joined
  have block : Joined .predicate other.relation.allowsPredicate (backwards parse.subjects) :=
    valid.subjects.backwards_of_subset (by decide) joined (List.subset_append_left _ _)
  obtain ⟨final, cut⟩ := another.dropPredicates predicates block
  refine ⟨_, cut, ?_⟩
  rw [valid.backwards_words, Parse.words, subjects, verb]
  rfl

/-- A maximal sentence that goes back over a maximal one is outermost. -/
theorem IsMaximal.isOutermost_back (single : board.Single)
    (maximal : IsMaximal board.Shows config words) {after : List PlacedWord}
    (longer : IsMaximal board.Shows config (backwards words ++ after)) :
    IsOutermost board.Shows config (backwards words ++ after) := by
  -- Words in front would stand before the reversal of a maximal sentence.
  refine ⟨longer, fun subject joint sentence => ?_⟩
  have same : (subject :: joint :: (backwards words ++ after)).map (·.entity) =
      [subject, joint].map (·.entity) ++ (words.map (·.entity)).reverse ++
        after.map (·.entity) := by
    simp
  have none := (maximal.back single sentence same).1
  cases none

/-- The first step of the words goes in a forward direction. -/
def StartsForward (words : List PlacedWord) : Prop :=
  -- A sentence has two words at least, so that there is a first step.
  ∃ first second rest heading, words = first :: second :: rest ∧ first.LeadsTo heading second ∧
    heading.readsForward = true

/-- If the words are a sentence backwards as well, then nothing continues that one, and the words
are read in the forward direction. -/
def Prevails (shown : PlacedWord → Prop) (config : Config) (words : List PlacedWord) : Prop :=
  -- A sentence that reads in one direction only has nothing to prevail over.
  IsSentence shown config (backwards words) →
    IsMaximal shown config (backwards words) ∧ StartsForward words

namespace Parse.Valid

variable {parse other : Parse}

/-- The first step of a sentence goes in its direction. -/
theorem exists_step (valid : parse.Valid board.Shows config) : ∃ first second rest,
    parse.words = first :: second :: rest ∧ first.LeadsTo parse.heading second := by
  -- A sentence has a second word, be it a conjunction or the relation word.
  obtain ⟨first, subjects, split, _⟩ := valid.subjects.exists_first
  have straight := valid.straight
  unfold words
  rw [split, List.cons_append] at straight ⊢
  cases subjects with
  | nil => exact ⟨_, _, _, rfl, (List.isChain_cons_cons.mp straight).1⟩
  | cons second rest => exact ⟨_, _, _, rfl, (List.isChain_cons_cons.mp straight).1⟩

/-- The direction of the first step is found. -/
theorem heading_eq (valid : parse.Valid board.Shows config) {phrase : Phrase}
    (same : phrase.words = parse.words) : phrase.heading = .ok (some parse.heading) := by
  -- The first two words are neighbours on the straight part of the path.
  obtain ⟨first, second, rest, split, reached⟩ := valid.exists_step
  unfold Phrase.heading
  rw [same, split]
  exact Cell.headingTo_of_neighbor (valid.shown first (by simp [split])).1 reached

/-- A sentence starts forward when its direction is a forward one. -/
theorem startsForward_iff (valid : parse.Valid board.Shows config) :
    StartsForward parse.words ↔ parse.heading.readsForward = true := by
  -- Two cells tell the direction from one to the other.
  obtain ⟨first, second, rest, split, reached⟩ := valid.exists_step
  constructor
  · intro starts
    obtain ⟨_, _, _, heading, same, again, forward⟩ := starts
    rw [split, List.cons.injEq, List.cons.injEq] at same
    obtain ⟨rfl, rfl, _⟩ := same
    cases Cell.direction_unique reached again
    exact forward
  · intro forward
    exact ⟨first, second, rest, _, split, reached, forward⟩

/-- A sentence and its reversal start in opposite directions. -/
theorem heading_backwards (single : board.Single) (valid : parse.Valid board.Shows config)
    (another : other.Valid board.Shows config) (same : other.words = backwards parse.words) :
    other.heading.readsForward = !parse.heading.readsForward := by
  -- The relation word is the same, and the two reach it from opposite sides.
  have tiles : other.words.map (·.entity) =
      [] ++ (parse.words.map (·.entity)).reverse ++ [] := by
    simp [same]
  obtain ⟨_, _, subjects, verb, _⟩ := valid.across single another tiles
  rw [(valid.opposite another subjects verb).1, Direction.readsForward_opposite, Bool.not_not]

end Parse.Valid

end Sentence

end WordTiles
