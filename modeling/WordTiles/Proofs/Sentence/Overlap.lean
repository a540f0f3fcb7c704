import WordTiles.Proofs.Sentence.Parse
import WordTiles.Proofs.World.Shown

/-! Sentences within sentences: a sentence stays one when words at its ends are cut off, and two
sentences over the same tiles share their relation word. -/

namespace WordTiles

namespace Sentence

variable {board : Board} {config : Config} {parse other : Parse}

/-- The words are a sentence that nothing continues at its end and that no conjunction with another
subject can be put in front of. -/
def IsOutermost (shown : PlacedWord → Prop) (config : Config) (words : List PlacedWord) : Prop :=
  -- In front, only a subject with a conjunction can be added.
  IsMaximal shown config words ∧
    ∀ subject joint, ¬ IsSentence shown config (subject :: joint :: words)

namespace Joined

variable {part : SentencePart} {test : Word → Bool} {words : List PlacedWord}

/-- What comes before a block within a longer one ends with a word and a conjunction. -/
theorem previous (joined : Joined part test words) {rest : List PlacedWord}
    (longer : Joined part test (rest ++ words)) (more : rest ≠ []) :
    ∃ before word joint, rest = before ++ [word, joint] ∧ joint.IsJoint ∧ word.part = part ∧
      test word.word = true := by
  -- Read backwards, it follows the block.
  have turn {block : List PlacedWord} (joined : Joined part test block) :
      Joined part test block.reverse := by
    have back : Joined part test (block.map id).reverse :=
      joined.reverse (fun _ _ isJoint => isJoint) (fun _ _ inPart passes => ⟨inPart, passes⟩)
    rwa [List.map_id] at back
  have reversed := turn longer
  rw [List.reverse_append] at reversed
  obtain ⟨joint, word, later, split, isJoint, inPart, passes⟩ :=
    (turn joined).next reversed (by simpa using more)
  refine ⟨later.reverse, word, joint, ?_, isJoint, inPart, passes⟩
  rw [← List.reverse_reverse rest, split]
  simp

/-- The conjunctions of a block are told by their word, unless the test lets it pass. -/
theorem part_eq (joined : Joined part test words) (fails : test .and = false) :
    ∀ word ∈ words, word.part = if word.word = .and then .conjunction else part := by
  -- A conjunction is in its own part, and no other word passes the test with its spelling.
  intro word member
  rcases joined.mem word member with isJoint | ⟨inPart, passes⟩
  · rw [isJoint.1, if_pos isJoint.2]
  · rw [inPart, if_neg]
    intro isAnd
    rw [isAnd, fails] at passes
    cases passes

end Joined

/-- The path to a word between joined words is a path as well. -/
theorem Winds.front {part : SentencePart} {test : Word → Bool} {heading final : Direction}
    {words rest : List PlacedWord} (joined : Joined part test words)
    (winds : Winds config heading (words ++ rest) final) :
    ∃ reached, Winds config heading words reached := by
  -- The path is followed two words at a time, as the block is.
  induction joined generalizing heading with
  | single => exact ⟨heading, .stay⟩
  | join _ _ _ further ih =>
    cases further <;>
    · cases winds with
      | turn reached mayTurn left later =>
        obtain ⟨last, front⟩ := ih later
        exact ⟨last, .turn reached mayTurn left front⟩

namespace Parse.Valid

variable {shown : PlacedWord → Prop}

/-- The later subjects of a sentence make one of their own with the rest. -/
theorem dropSubjects (valid : parse.Valid shown config) {rest block : List PlacedWord}
    (split : parse.subjects = rest ++ block)
    (joined : Joined .subject parse.relation.admits block) :
    { parse with subjects := block }.Valid shown config := by
  -- Every condition on the sentence is one on fewer words now.
  have words : parse.words = rest ++ (block ++ parse.verb :: parse.predicates) := by
    rw [words, split, List.append_assoc]
  constructor
  · intro word member
    exact valid.shown word (words ▸ List.mem_append_right rest member)
  · have distinct := valid.distinct
    rw [words, List.map_append] at distinct
    exact (List.nodup_append.mp distinct).2.1
  · exact joined
  · -- A single subject is the whole block.
    refine valid.chained.imp_right fun one => ?_
    have more := List.length_pos_iff.mpr joined.ne_nil
    rw [split, List.length_append] at one
    change block.length = 1
    omega
  · exact valid.verbPart
  · exact valid.verbWord
  · exact valid.predicates
  · have straight := valid.straight
    -- The end of a straight line is straight.
    rw [split, List.append_assoc] at straight
    exact straight.right_of_append
  · exact valid.winds

/-- The earlier predicates of a sentence make one of their own with the rest. -/
theorem dropPredicates (valid : parse.Valid shown config) {block rest : List PlacedWord}
    (split : parse.predicates = block ++ rest)
    (joined : Joined .predicate parse.relation.allowsPredicate block) :
    ∃ final, { parse with predicates := block, final }.Valid shown config := by
  -- Every condition on the sentence is one on fewer words now, and the path ends earlier.
  have winds := valid.winds
  rw [split] at winds
  obtain ⟨final, front⟩ := Winds.front joined winds
  -- The words are cut behind the block.
  have words : parse.words = parse.subjects ++ parse.verb :: block ++ rest := by
    rw [words, split, List.append_assoc, List.cons_append]
  refine ⟨final, ?_⟩
  constructor
  · intro word member
    exact valid.shown word (words ▸ List.mem_append_left rest member)
  · have distinct := valid.distinct
    rw [words, List.map_append] at distinct
    exact (List.nodup_append.mp distinct).1
  · exact valid.subjects
  · exact valid.chained
  · exact valid.verbPart
  · exact valid.verbWord
  · exact joined
  · have straight := valid.straight
    -- The block has a first predicate, up to which nothing is cut.
    obtain ⟨first, later, rfl, _⟩ := joined.exists_first
    rw [split] at straight
    exact straight
  · exact front

end Parse.Valid

end Sentence

/-- On a board that shows each tile once the tile and its part in a sentence tell the word. -/
theorem Board.Single.eq_of_entity {board : Board} (single : board.Single) {a b : PlacedWord}
    (shows : board.Shows a) (shows' : board.Shows b) (same : a.entity = b.entity)
    (parts : a.part = b.part) : a = b := by
  -- The four fields agree one by one.
  have word := single.word shows shows' same
  have position := single.position shows shows' same
  obtain ⟨_, _, _, _⟩ := a
  obtain ⟨_, _, _, _⟩ := b
  simp_all only

/-- Words that show and that take one part of a sentence, except for the conjunctions among them. -/
def Board.Reads (board : Board) (part : SentencePart) (words : List PlacedWord) : Prop :=
  -- A conjunction is read as one whatever it joins.
  ∀ word ∈ words, board.Shows word ∧
    word.part = if word.word = .and then .conjunction else part

/-- The tiles determine the words in one part. -/
theorem Board.Reads.eq_of_entities {board : Board} (single : board.Single) {part : SentencePart}
    {left right : List PlacedWord} (one : board.Reads part left) (other : board.Reads part right)
    (same : left.map (·.entity) = right.map (·.entity)) : left = right := by
  -- Each tile shows in one place with one word.
  induction left generalizing right with
  | nil =>
    rw [List.map_nil, eq_comm, List.map_eq_nil_iff] at same
    exact same.symm
  | cons a rest ih =>
    cases right with
    | nil => cases same
    | cons b others =>
      rw [List.map_cons, List.map_cons, List.cons.injEq] at same
      obtain ⟨shows, inPart⟩ := one a (by simp)
      obtain ⟨shows', inPart'⟩ := other b (by simp)
      have parts : a.part = b.part := by
        rw [inPart, inPart', single.word shows shows' same.1]
      rw [single.eq_of_entity shows shows' same.1 parts,
        ih (fun word member => one word (by simp [member]))
          (fun word member => other word (by simp [member])) same.2]

namespace Sentence.Parse.Valid

variable {board : Board} {config : Config} {parse other : Parse}

/-- The subjects of a sentence are read as subjects. -/
theorem reads_subjects (valid : parse.Valid board.Shows config) :
    board.Reads .subject parse.subjects := by
  -- No relation admits a conjunction as a subject.
  have fails : parse.relation.admits .and = false := by cases parse.relation <;> rfl
  exact fun word member => ⟨valid.shown word (List.mem_append_left _ member),
    valid.subjects.part_eq fails word member⟩

/-- The predicates of a sentence are read as predicates. -/
theorem reads_predicates (valid : parse.Valid board.Shows config) :
    board.Reads .predicate parse.predicates := by
  -- No relation allows a conjunction as a predicate.
  have fails : parse.relation.allowsPredicate .and = false := by cases parse.relation <;> rfl
  exact fun word member => ⟨valid.shown word (by simp [words, member]),
    valid.predicates.part_eq fails word member⟩

/-- The relation words of two sentences are equal when their tiles are. -/
theorem verb_eq (single : board.Single) (valid : parse.Valid board.Shows config)
    (another : other.Valid board.Shows config) (entity : parse.verb.entity = other.verb.entity) :
    parse.verb = other.verb ∧ parse.relation = other.relation := by
  -- A tile shows one word in one place, and both are read in the same part.
  have shows := valid.shown parse.verb (by simp [words])
  have shows' := another.shown other.verb (by simp [words])
  have same := single.eq_of_entity shows shows' entity
    (valid.verbPart.trans another.verbPart.symm)
  have stated := valid.verbWord
  rw [same, another.verbWord] at stated
  exact ⟨same, (Option.some.inj stated).symm⟩

/-- Where the tiles of a sentence contain those of two blocks around the relation word of another,
the two have their relation word in common, its subjects end with the first block, and its
predicates begin with the second. -/
theorem align (single : board.Single) (valid : parse.Valid board.Shows config)
    (another : other.Valid board.Shows config) {first last : List PlacedWord}
    (reads : board.Reads .subject first) (reads' : board.Reads .predicate last)
    {front back : List EntityId}
    (same : other.words.map (·.entity) =
      front ++ (first ++ parse.verb :: last).map (·.entity) ++ back) :
    ∃ before after, other.subjects = before ++ first ∧ other.verb = parse.verb ∧
      other.relation = parse.relation ∧ other.predicates = last ++ after ∧
        before.map (·.entity) = front ∧ after.map (·.entity) = back := by
  -- The tile in the middle shows one word, and only the relation word of the sentence fits.
  rw [List.map_append, List.map_cons, ← List.append_assoc, List.append_assoc,
    List.map_eq_append_iff] at same
  obtain ⟨earlier, later, split, earliers, laters⟩ := same
  rw [List.cons_append, List.map_eq_cons_iff] at laters
  obtain ⟨verb, rest, rfl, entity, rests⟩ := laters
  have shown : board.Shows verb := another.shown verb (by simp [split])
  have hit : verb.word.relation?.isSome = true := by
    rw [single.word shown (valid.shown _ (by simp [words])) entity]
    exact valid.verb_hit
  obtain ⟨subjects, rfl, predicates⟩ :=
    split_unique split another.subjects_free another.predicates_free hit
  obtain ⟨sameVerb, relation⟩ := another.verb_eq single valid entity
  -- On both sides of it the tiles tell the words, because the part is known there.
  obtain ⟨before, block, rfl, fronts, firsts⟩ := List.map_eq_append_iff.mp earliers
  obtain ⟨block', after, rfl, lasts, backs⟩ := List.map_eq_append_iff.mp rests
  have read := another.reads_subjects
  have read' := another.reads_predicates
  rw [subjects] at read
  rw [predicates] at read'
  have one := Board.Reads.eq_of_entities single
    (fun word member => read word (List.mem_append_right _ member)) reads firsts
  have two := Board.Reads.eq_of_entities single
    (fun word member => read' word (List.mem_append_left _ member)) reads' lasts
  rw [one] at subjects
  rw [two] at predicates
  exact ⟨before, after, subjects, sameVerb, relation, predicates, fronts, backs⟩

/-- A sentence whose tiles occur within another begins inside its subjects and ends inside its
predicates. -/
theorem within (single : board.Single) (valid : parse.Valid board.Shows config)
    (another : other.Valid board.Shows config) {front back : List EntityId}
    (same : other.words.map (·.entity) = front ++ parse.words.map (·.entity) ++ back) :
    ∃ before after, other.subjects = before ++ parse.subjects ∧ other.verb = parse.verb ∧
      other.relation = parse.relation ∧ other.predicates = parse.predicates ++ after ∧
        before.map (·.entity) = front ∧ after.map (·.entity) = back :=
  -- Both sentences read the blocks in the same parts.
  valid.align single another valid.reads_subjects valid.reads_predicates same

end Sentence.Parse.Valid

namespace Sentence

variable {board : Board} {config : Config} {words front : List PlacedWord}

/-- A maximal sentence ends wherever a sentence ends that its tiles occur in. -/
theorem IsMaximal.ends (single : board.Single) (maximal : IsMaximal board.Shows config words)
    {longer : List PlacedWord} (sentence : IsSentence board.Shows config longer)
    {front back : List EntityId}
    (same : longer.map (·.entity) = front ++ words.map (·.entity) ++ back) :
    back = [] ∧ ∃ before, longer = before ++ words ∧ before.map (·.entity) = front := by
  obtain ⟨parse, valid, rfl⟩ := maximal.1
  obtain ⟨other, another, rfl⟩ := sentence
  obtain ⟨before, after, subjects, verb, relation, predicates, fronts, backs⟩ :=
    valid.within single another same
  -- Without the subjects in front, the longer sentence continues the maximal one.
  have cut := another.dropSubjects subjects (relation ▸ valid.subjects)
  have longer : { other with subjects := parse.subjects }.words = parse.words ++ after := by
    simp [Parse.words, verb, predicates]
  have ends : after = [] := by
    by_contra more
    obtain ⟨joint, next, _, turned, _, continues, _⟩ := valid.continues cut longer more
    exact valid.isMaximal_iff.mp maximal joint next turned continues
  subst ends
  refine ⟨backs.symm, before, ?_, fronts⟩
  simp [Parse.words, subjects, verb, predicates]

/-- Nothing stands behind a maximal sentence. -/
theorem IsMaximal.rest_eq_nil (single : board.Single)
    (maximal : IsMaximal board.Shows config words) {rest : List PlacedWord}
    (sentence : IsSentence board.Shows config (words ++ rest)) : rest = [] := by
  -- The longer sentence covers the same tiles from the start, and so the maximal one is all of it.
  have same : (words ++ rest).map (·.entity) =
      [] ++ words.map (·.entity) ++ rest.map (·.entity) := by
    simp
  exact List.map_eq_nil_iff.mp (maximal.ends single sentence same).1

/-- A sentence that ends with a maximal one is maximal. -/
theorem IsMaximal.of_longer (single : board.Single) (maximal : IsMaximal board.Shows config words)
    (sentence : IsSentence board.Shows config (front ++ words)) :
    IsMaximal board.Shows config (front ++ words) := by
  -- Whatever continued the longer sentence would stand behind the maximal one.
  refine ⟨sentence, fun joint next longer => ?_⟩
  have same : (front ++ words ++ [joint, next]).map (·.entity) =
      front.map (·.entity) ++ words.map (·.entity) ++ [joint, next].map (·.entity) := by
    simp
  have ends := (maximal.ends single longer same).1
  cases ends

/-- Nothing stands in front of an outermost sentence. -/
theorem IsOutermost.front_eq_nil (single : board.Single)
    (outermost : IsOutermost board.Shows config words)
    (sentence : IsSentence board.Shows config (front ++ words)) : front = [] := by
  -- Of what stands in front, the last subject and its conjunction would be enough.
  by_contra more
  obtain ⟨parse, valid, rfl⟩ := outermost.1.1
  obtain ⟨other, another, same⟩ := sentence
  have tiles : other.words.map (·.entity) =
      front.map (·.entity) ++ parse.words.map (·.entity) ++ [] := by
    simp [same]
  -- The two sentences share their verb, since their words lie on the same tiles.
  obtain ⟨before, after, subjects, verb, relation, predicates, fronts, backs⟩ :=
    valid.within single another tiles
  cases List.map_eq_nil_iff.mp backs
  have nonempty : before ≠ [] := by
    intro none
    rw [none, List.map_nil, eq_comm, List.map_eq_nil_iff] at fronts
    exact more fronts
  -- What stands in front ends with a subject and a conjunction.
  have joined := another.subjects
  rw [subjects, relation] at joined
  obtain ⟨earlier, subject, joint, rfl, isJoint, inPart, admitted⟩ :=
    valid.subjects.previous joined nonempty
  rw [List.append_assoc] at subjects
  -- With these two alone the path is a sentence already.
  have block : Joined .subject other.relation.admits ([subject, joint] ++ parse.subjects) := by
    rw [relation]
    exact .join inPart admitted isJoint valid.subjects
  have cut := another.dropSubjects subjects block
  refine outermost.2 subject joint ⟨_, cut, ?_⟩
  simp [Parse.words, verb, predicates]

/-- A sentence has no more words than the board has places. -/
theorem IsSentence.length_le (sentence : IsSentence board.Shows config words) :
    words.length ≤ board.places.length := by
  -- Its words take different places.
  obtain ⟨parse, valid, rfl⟩ := sentence
  rw [← List.length_map PlacedWord.place]
  refine valid.distinct.length_le_of_subset fun place taken => ?_
  obtain ⟨word, member, rfl⟩ := List.mem_map.mp taken
  exact Board.mem_places (valid.shown word member).1 word.part

/-- Every sentence begins a maximal one. -/
theorem IsSentence.exists_maximal (sentence : IsSentence board.Shows config words) :
    ∃ rest, IsMaximal board.Shows config (words ++ rest) := by
  -- Each continuation leaves fewer places, so by induction on those the last one is maximal.
  induction room : board.places.length - words.length using Nat.strong_induction_on
    generalizing words with
  | _ room ih =>
    by_cases continued : ∃ joint next, IsSentence board.Shows config (words ++ [joint, next])
    · obtain ⟨joint, next, longer⟩ := continued
      have bound := longer.length_le
      rw [List.length_append, List.length_cons, List.length_singleton] at bound
      obtain ⟨rest, maximal⟩ := ih _ (by simp; omega) longer rfl
      exact ⟨[joint, next] ++ rest, by rwa [← List.append_assoc]⟩
    · refine ⟨[], ?_⟩
      rw [List.append_nil]
      exact ⟨sentence, fun joint next longer => continued ⟨joint, next, longer⟩⟩

/-- Every maximal sentence ends an outermost one. -/
theorem IsMaximal.exists_outermost (single : board.Single)
    (maximal : IsMaximal board.Shows config words) :
    ∃ front, IsOutermost board.Shows config (front ++ words) := by
  -- The same induction, with words put in front.
  induction room : board.places.length - words.length using Nat.strong_induction_on
    generalizing words with
  | _ room ih =>
    by_cases preceded : ∃ subject joint, IsSentence board.Shows config (subject :: joint :: words)
    · obtain ⟨subject, joint, longer⟩ := preceded
      have bound := longer.length_le
      rw [List.length_cons, List.length_cons] at bound
      have larger : IsMaximal board.Shows config ([subject, joint] ++ words) :=
        maximal.of_longer single longer
      obtain ⟨front, outermost⟩ := ih _ (by simp; omega) larger rfl
      exact ⟨front ++ [subject, joint], by rwa [List.append_assoc]⟩
    · exact ⟨[], maximal, fun subject joint longer => preceded ⟨subject, joint, longer⟩⟩

end Sentence

end WordTiles
