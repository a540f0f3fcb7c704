import WordTiles.Proofs.Sentence.Survivors

/-! One-way sentences: when three tiles state something in one direction only. -/

namespace WordTiles

/-- The path reads three tiles one after the other, the second of them as its relation word. -/
def Phrase.States (path : Phrase) (subject relation object : EntityId) : Prop :=
  -- The relation word must be read as one, and the other two may be read as anything.
  ∃ before first verb last after, path.words = before ++ first :: verb :: last :: after ∧
    first.entity = subject ∧ verb.entity = relation ∧ last.entity = object ∧
      verb.part = .relation

namespace Sentence

variable {board : Board} {config : Config}

/-- Only the relation word of a sentence is read as a relation, and the direction of the sentence
leads from the last subject over it to the first predicate. -/
theorem Parse.Valid.of_states {parse : Parse} (valid : parse.Valid board.Shows config)
    {before after : List PlacedWord} {first verb last : PlacedWord}
    (words : parse.words = before ++ first :: verb :: last :: after)
    (inPart : verb.part = .relation) :
    first.LeadsTo parse.heading verb ∧ verb.LeadsTo parse.heading last := by
  -- Nothing but the relation word is read as a relation, so it is the second of the three.
  have free {part : SentencePart} {test : Word → Bool} {block : List PlacedWord}
      (joined : Joined part test block) (proper : part ≠ .relation) :
      ∀ word ∈ block, decide (word.part = .relation) = false := by
    intro word member
    rcases joined.mem word member with isJoint | ⟨same, _⟩
    · rw [isJoint.1]
      rfl
    · rw [same]
      exact decide_eq_false proper
  -- In both splits of the words the relation word is the only one in its part.
  rw [← List.singleton_append, ← List.append_assoc] at words
  obtain ⟨subjects, rfl, predicates⟩ := split_unique words (free valid.subjects (by decide))
    (free valid.predicates (by decide)) (decide_eq_true inPart)
  have straight := valid.straight
  rw [subjects, predicates, List.append_assoc, List.take_succ_cons, List.take_zero,
    List.singleton_append] at straight
  obtain ⟨toVerb, line⟩ := List.isChain_cons_cons.mp straight.right_of_append
  exact ⟨toVerb, (List.isChain_cons_cons.mp line).1⟩

/-- Sentences that read the same three tiles in both directions start in opposite directions. -/
theorem Parse.Valid.heading_of_states (single : board.Single) {path other : Phrase}
    {parse parse' : Parse} (valid : parse.Valid board.Shows config)
    (another : parse'.Valid board.Shows config) (words : parse.words = path.words)
    (words' : parse'.words = other.words) {subject relation object : EntityId}
    (states : path.States subject relation object)
    (states' : other.States object relation subject) :
    parse'.heading.readsForward = !parse.heading.readsForward := by
  obtain ⟨before, first, verb, last, after, split, one, two, _, inPart⟩ := states
  obtain ⟨before', first', verb', last', after', split', _, two', three', inPart'⟩ := states'
  obtain ⟨toVerb, _⟩ := valid.of_states (words.trans split) inPart
  obtain ⟨_, toLast⟩ := another.of_states (words'.trans split') inPart'
  have shown : ∀ word ∈ [first, verb], board.Shows word := by
    intro word member
    refine valid.shown word ?_
    rw [words, split]
    simp only [List.mem_cons, List.not_mem_nil, or_false] at member
    rcases member with rfl | rfl <;> simp
  have shown' : ∀ word ∈ [verb', last'], board.Shows word := by
    intro word member
    refine another.shown word ?_
    rw [words', split']
    simp only [List.mem_cons, List.not_mem_nil, or_false] at member
    rcases member with rfl | rfl <;> simp
  -- The tiles lie where they lie, so the step to the relation word is the step from it, back.
  have ends := single.position (shown first (by simp)) (shown' last' (by simp))
    (one.trans three'.symm)
  have middle := single.position (shown verb (by simp)) (shown' verb' (by simp))
    (two.trans two'.symm)
  have back := Cell.neighbor_opposite toVerb
  rw [ends, middle] at back
  rw [Cell.direction_unique toLast back, Direction.readsForward_opposite]

end Sentence

namespace World

open Sentence

/-- On a world that a host can bring about three tiles are read in both directions exactly when
there are outermost sentences over them in both directions that prevail, of which at least one is
no sentence backwards: a sentence loses only to the reversal of all of its words. -/
theorem Reachable.states_both_ways_iff {world : World} (reachable : world.Reachable)
    (config : Config) :
    ∃ kept, world.board.paths config = .ok kept ∧ ∀ subject relation object : EntityId,
      ((∃ path ∈ kept, path.States subject relation object) ∧
        ∃ path ∈ kept, path.States object relation subject) ↔
      ∃ ahead back : Phrase, ahead.States subject relation object ∧
        back.States object relation subject ∧
          IsOutermost world.Shows config ahead.words ∧ IsOutermost world.Shows config back.words ∧
            Prevails world.Shows config ahead.words ∧ Prevails world.Shows config back.words ∧
              (¬ IsSentence world.Shows config (backwards ahead.words) ∨
                ¬ IsSentence world.Shows config (backwards back.words)) := by
  have consistent := reachable.consistent
  have single := consistent.single_board
  obtain ⟨found, searched, _, maximal⟩ := Agenda.sentences_spec single config
  obtain ⟨kept, dropped, _, survives⟩ := Prune.dropReversals_dropTails_spec single maximal
  rw [← consistent.board_shows]
  refine ⟨kept, ?_, fun subject relation object => ⟨fun both => ?_, fun both => ?_⟩⟩
  · unfold Board.paths
    rw [searched]
    exact dropped
  · obtain ⟨⟨ahead, member, states⟩, back, member', states'⟩ := both
    obtain ⟨outer, prevails⟩ := (survives ahead).mp member
    obtain ⟨outer', prevails'⟩ := (survives back).mp member'
    refine ⟨ahead, back, states, states', outer, outer', prevails, prevails', ?_⟩
    -- If both were sentences backwards, both would start forward, but they go in opposite
    -- directions.
    rw [← Classical.not_and_iff_not_or_not]
    intro reversed
    have starts := (prevails reversed.1).2
    have starts' := (prevails' reversed.2).2
    obtain ⟨parse, valid, words⟩ := outer.1.1
    obtain ⟨parse', valid', words'⟩ := outer'.1.1
    have opposite := valid.heading_of_states single valid' words words' states states'
    rw [← words, valid.startsForward_iff] at starts
    rw [← words', valid'.startsForward_iff, opposite, starts] at starts'
    cases starts'
  · obtain ⟨ahead, back, states, states', outer, outer', prevails, prevails', _⟩ := both
    exact ⟨⟨ahead, (survives ahead).mpr ⟨outer, prevails⟩, states⟩,
      back, (survives back).mpr ⟨outer', prevails'⟩, states'⟩

/-- A row whose two nouns are each chained to a property on the far side of the relation word. -/
def chainedRow : List Word :=
  -- To the right it reads `ROCK IS WALL AND PUSH`, and to the left `WALL IS ROCK AND STOP`.
  [.stop, .and, .rock, .is, .wall, .and, .push]

/-- The first sentence of the row. -/
def rockIsWall : Phrase :=
  -- The first two words of the row are not in it.
  ⟨[⟨.rock, ⟨2, 0⟩, ⟨2⟩, .subject⟩, ⟨.is, ⟨3, 0⟩, ⟨3⟩, .relation⟩,
    ⟨.wall, ⟨4, 0⟩, ⟨4⟩, .predicate⟩, ⟨.and, ⟨5, 0⟩, ⟨5⟩, .conjunction⟩,
    ⟨.push, ⟨6, 0⟩, ⟨6⟩, .predicate⟩]⟩

/-- The second sentence of the row. -/
def wallIsRock : Phrase :=
  -- The last two words of the row are not in it.
  ⟨[⟨.wall, ⟨4, 0⟩, ⟨4⟩, .subject⟩, ⟨.is, ⟨3, 0⟩, ⟨3⟩, .relation⟩,
    ⟨.rock, ⟨2, 0⟩, ⟨2⟩, .predicate⟩, ⟨.and, ⟨1, 0⟩, ⟨1⟩, .conjunction⟩,
    ⟨.stop, ⟨0, 0⟩, ⟨0⟩, .predicate⟩]⟩

/-- Both sentences of the row survive. -/
theorem paths_chainedRow : (do
    let world ← World.row chainedRow
    world.board.paths .standard : Except Error _) = .ok [rockIsWall, wallIsRock] := by
  -- Neither sentence is the whole reversal of a part of the other, and so the filters keep both.
  cbv

/-- The two sentences read the same three tiles in both directions. -/
theorem states_chainedRow :
    rockIsWall.States ⟨2⟩ ⟨3⟩ ⟨4⟩ ∧ wallIsRock.States ⟨4⟩ ⟨3⟩ ⟨2⟩ :=
  -- The three tiles stand at the front of both sentences.
  ⟨⟨[], _, _, _, _, rfl, rfl, rfl, rfl, rfl⟩, ⟨[], _, _, _, _, rfl, rfl, rfl, rfl, rfl⟩⟩

/-- The row has outermost sentences in both directions, of which one is no sentence backwards. -/
theorem chainedRow_both_ways : ∃ world, World.row chainedRow = .ok world ∧
    ∃ ahead back : Phrase, ahead.States ⟨2⟩ ⟨3⟩ ⟨4⟩ ∧ back.States ⟨4⟩ ⟨3⟩ ⟨2⟩ ∧
      IsOutermost world.Shows .standard ahead.words ∧
        IsOutermost world.Shows .standard back.words ∧
          (¬ IsSentence world.Shows .standard (backwards ahead.words) ∨
            ¬ IsSentence world.Shows .standard (backwards back.words)) := by
  -- Both paths survive on this row, so the equivalence gives the two sentences.
  obtain ⟨world, built⟩ : ∃ world, World.row chainedRow = .ok world := ⟨_, rfl⟩
  obtain ⟨kept, searched, both⟩ := (Reachable.row built).states_both_ways_iff .standard
  have known := paths_chainedRow
  rw [built] at known
  simp only [searched, Bind.bind, Except.bind, Except.ok.injEq] at known
  subst known
  obtain ⟨ahead, back, states, states', outer, outer', _, _, oneWay⟩ := (both ⟨2⟩ ⟨3⟩ ⟨4⟩).mp
    ⟨⟨rockIsWall, by simp, states_chainedRow.1⟩, wallIsRock, by simp, states_chainedRow.2⟩
  exact ⟨world, built, ahead, back, states, states', outer, outer', oneWay⟩

/-- Sentences are not always one-way: the row states that rocks are walls and that walls are
rocks. -/
theorem not_always_one_way : ¬ ∀ (world : World) (config : Config), world.Reachable →
    ∀ kept, world.board.paths config = .ok kept →
      ∀ path ∈ kept, ∀ subject relation object, path.States subject relation object →
        ∀ other ∈ kept, ¬ other.States object relation subject := by
  -- The two sentences of the row read the same three tiles.
  intro oneWay
  obtain ⟨world, built⟩ : ∃ world, World.row chainedRow = .ok world := ⟨_, rfl⟩
  have known := paths_chainedRow
  rw [built] at known
  exact oneWay world .standard (.row built) _ known rockIsWall (by simp) ⟨2⟩ ⟨3⟩ ⟨4⟩
    states_chainedRow.1 wallIsRock (by simp) states_chainedRow.2

end World

end WordTiles
