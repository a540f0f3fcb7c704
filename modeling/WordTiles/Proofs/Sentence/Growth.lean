import WordTiles.Proofs.Sentence.Grammar
import WordTiles.Proofs.World.Shown
import WordTiles.Sentence.Draft

/-! How a draft grows: everything that one step of the search can do, said without lists. -/

namespace WordTiles

/-- The draft after one more word. -/
def Draft.read (draft : Draft) (word : PlacedWord) (phase : Phase) : Draft :=
  -- Reading is pushing, with the part of the word written into the word.
  ⟨word, draft.trail, draft.heading, phase⟩

namespace Draft

/-- The places that the words of a draft take. -/
def places (draft : Draft) : List (Cell × SentencePart) :=
  -- The order is that of the trail, latest place first.
  draft.trail.map PlacedWord.place

/-- A word can be read next: it shows straight ahead, in a place that the draft has not used. -/
structure Reaches (board : Board) (draft : Draft) (word : PlacedWord) : Prop where
  shows : board.Shows word
  reached : draft.last.LeadsTo draft.heading word
  free : word.place ∉ draft.places

/-- The ways in which a draft grows in each phase. -/
inductive Grows (board : Board) (config : Config) (draft : Draft) : Phase → Draft → Prop where
  /-- After a subject, by a relation that allows every subject so far. -/
  | relation {word : PlacedWord} {relation : Relation} (reaches : draft.Reaches board word)
      (inPart : word.part = .relation) (states : word.word.relation? = some relation)
      (allowed : draft.phrase.subjects.all relation.allowsSubject = true) :
      Grows board config draft .subject (draft.read word (.relation relation))
  /-- After a subject, by a conjunction of subjects. -/
  | conjunction {word : PlacedWord} (reaches : draft.Reaches board word) (isJoint : word.IsJoint)
      (joins : config.joinsSubjects = true) :
      Grows board config draft .subject (draft.read word .conjunction)
  /-- After a conjunction of subjects, by another subject. -/
  | subject {word : PlacedWord} (reaches : draft.Reaches board word) (inPart : word.part = .subject)
      (noun : word.word.isNoun = true) :
      Grows board config draft .conjunction (draft.read word .subject)
  /-- After the relation, by a predicate that it allows. -/
  | predicate {word : PlacedWord} {relation : Relation} (reaches : draft.Reaches board word)
      (inPart : word.part = .predicate) (allowed : relation.allowsPredicate word.word = true) :
      Grows board config draft (.relation relation) (draft.read word (.predicate relation))
  /-- After a predicate, by a conjunction and another predicate, between which it may turn. -/
  | joined {joint word : PlacedWord} {relation : Relation} {turned : Direction}
      (reaches : draft.Reaches board joint) (isJoint : joint.IsJoint)
      (mayTurn : Sentence.MayTurn config draft.heading turned) (left : joint.LeadsTo turned word)
      (shows : board.Shows word) (free : word.place ∉ draft.places)
      (inPart : word.part = .predicate) (allowed : relation.allowsPredicate word.word = true) :
      Grows board config draft (.predicate relation)
        ⟨word, joint :: draft.trail, turned, .predicate relation⟩

/-- A draft grows by words that show. -/
theorem Grows.shows {board : Board} {config : Config} {draft fork : Draft} {phase : Phase}
    (grows : draft.Grows board config phase fork) : board.Shows fork.last := by
  -- The last word is the one that was reached, or the predicate after the joint.
  cases grows with
  | relation reaches _ _ _ => exact reaches.shows
  | conjunction reaches _ _ => exact reaches.shows
  | subject reaches _ _ => exact reaches.shows
  | predicate reaches _ _ => exact reaches.shows
  | joined _ _ _ _ shows _ _ _ => exact shows

/-- A draft has used a place exactly when one of its words takes it. -/
theorem uses_eq_false_iff {draft : Draft} {cell : Cell} {part : SentencePart} :
    draft.uses cell part = false ↔ (cell, part) ∉ draft.places := by
  -- The test looks for a word with this cell and this part.
  rw [← Bool.not_eq_true, not_iff_not]
  simp [uses, places, PlacedWord.place]

/-- A draft can leave a conjunction in the directions in which a sentence may turn there. -/
theorem mem_turns_iff {config : Config} {heading turned : Direction} :
    turned ∈ turns config heading ↔ Sentence.MayTurn config heading turned := by
  -- The directions after the first one are those that are neither straight on nor back.
  unfold turns Sentence.MayTurn
  cases config.mayBend with
  | false => simp
  | true =>
    by_cases straight : turned = heading
    · simp [straight]
    · simp [straight, turned.mem_all]

/-- No direction is tried twice. -/
theorem nodup_turns (config : Config) (heading : Direction) : (turns config heading).Nodup := by
  -- The straight direction is filtered out of the further ones.
  unfold turns
  cases config.mayBend with
  | false => simp
  | true => cases heading <;> decide

variable {board : Board} {config : Config} {draft : Draft}

/-- A tile straight ahead is a word that can be read next in any part that is free there. -/
theorem Reaches.of_tile {next : Cell} (led : draft.last.position.neighbor draft.heading = .ok next)
    (inside : board.contains next = true) {tile : Tile} (lies : tile ∈ board.tiles next)
    {part : SentencePart} (free : draft.uses next part = false) :
    draft.Reaches board ⟨tile.word, next, tile.entity, part⟩ :=
  -- The three conditions are those that the code tests, one by one.
  ⟨⟨inside, lies⟩, led, uses_eq_false_iff.mp free⟩

/-- Whatever can be read next is a tile straight ahead. -/
theorem Reaches.exists_tile {next : Cell}
    (led : draft.last.position.neighbor draft.heading = .ok next) {word : PlacedWord}
    (reaches : draft.Reaches board word) :
    ∃ tile ∈ board.tiles next, ∃ part, word = ⟨tile.word, next, tile.entity, part⟩ ∧
      draft.uses next part = false := by
  -- Straight ahead lies one cell only.
  obtain ⟨spelled, position, entity, part⟩ := word
  have here : next = position := Except.ok.inj (led.symm.trans reaches.reached)
  subst here
  exact ⟨⟨entity, spelled⟩, reaches.shows.2, part, rfl, uses_eq_false_iff.mpr reaches.free⟩

/-- The landings are the cells beyond that lie on the grid. -/
theorem landings_eq {grid : Grid} {cell : Cell} (inside : grid.contains cell = true)
    (directions : List Direction) :
    landings grid cell directions = .ok (directions.filterMap fun direction =>
      if grid.contains (cell.beyond direction) then some (direction, cell.beyond direction)
      else none) := by
  -- By induction on the directions, each of which adds its landing or nothing.
  induction directions with
  | nil => rfl
  | cons direction rest ih =>
    obtain ⟨next, led, stepped⟩ := Grid.step_of_contains inside direction
    rw [landings, stepped, ih, List.filterMap_cons, Cell.beyond_eq led]
    cases grid.contains next <;> rfl

/-- From a cell of the grid the landings are found: in the order of the directions, each with the
cell of the grid to which it leads. -/
theorem landings_spec {grid : Grid} {cell : Cell} (inside : grid.contains cell = true)
    (directions : List Direction) :
    ∃ found, landings grid cell directions = .ok found ∧
      (∀ direction next, (direction, next) ∈ found ↔ direction ∈ directions ∧
        cell.neighbor direction = .ok next ∧ grid.contains next = true) ∧
      (found.map Prod.fst).Sublist directions := by
  refine ⟨_, landings_eq inside directions, fun direction next => ?_, ?_⟩
  · rw [List.mem_filterMap]
    constructor
    · rintro ⟨turned, listed, kept⟩
      split at kept <;> cases kept
      exact ⟨listed, (Grid.neighbor_eq_ok_iff inside).mpr rfl, ‹_›⟩
    · rintro ⟨listed, led, lands⟩
      obtain rfl := Cell.beyond_eq led
      exact ⟨direction, listed, if_pos lands⟩
  · -- Each direction is kept as it is or left out.
    induction directions with
    | nil => exact .slnil
    | cons first rest ih =>
      rw [List.filterMap_cons]
      split
      · exact ih.cons first
      · rename_i kept
        split at kept <;> cases kept
        exact ih.cons_cons first

/-- What may follow a subject at the cell straight ahead. -/
theorem mem_afterSubject_iff {next : Cell} {fork : Draft}
    (led : draft.last.position.neighbor draft.heading = .ok next)
    (inside : board.contains next = true) :
    fork ∈ (board.tiles next).filterMap (draft.afterSubject config next) ↔
      Grows board config draft .subject fork := by
  rw [List.mem_filterMap]
  constructor
  · -- Both kinds of words test their own place and their own condition.
    intro listed
    obtain ⟨tile, lies, taken⟩ := listed
    unfold afterSubject at taken
    split at taken <;> split at taken
    · rename_i relation states test
      simp only [Bool.and_eq_true, Bool.not_eq_true'] at test
      cases taken
      exact .relation (.of_tile led inside lies test.1) rfl states test.2
    · cases taken
    · rename_i test
      simp only [Bool.and_eq_true, Bool.not_eq_true'] at test
      cases taken
      have isAnd : tile.word = .and := by simpa [Word.isConjunction] using test.1.1
      exact .conjunction (.of_tile led inside lies test.2) ⟨rfl, isAnd⟩ test.1.2
    · cases taken
  · -- The word that is read lies on a tile of the cell, which is tested as it was read.
    intro grows
    cases grows with
    | relation reaches inPart states allowed =>
      obtain ⟨tile, lies, part, rfl, free⟩ := reaches.exists_tile led
      cases inPart
      exact ⟨tile, lies, by simp [afterSubject, states, free, allowed, push, read]⟩
    | conjunction reaches isJoint joins =>
      obtain ⟨tile, lies, part, rfl, free⟩ := reaches.exists_tile led
      obtain ⟨inPart, isAnd⟩ := isJoint
      cases inPart
      change tile.word = .and at isAnd
      refine ⟨tile, lies, ?_⟩
      simp [afterSubject, isAnd, Word.relation?, Word.isConjunction, joins, free, push, read]

/-- The words of one cell continue a draft when they can be read next and pass the test. -/
theorem mem_continuations_iff {next : Cell} {part : SentencePart} {phase : Phase}
    {test : Word → Bool} {fork : Draft}
    (led : draft.last.position.neighbor draft.heading = .ok next)
    (inside : board.contains next = true) :
    fork ∈ draft.continuations board next part phase test ↔
      ∃ word, draft.Reaches board word ∧ word.part = part ∧ test word.word = true ∧
        fork = draft.read word phase := by
  -- The place is tested once, and then each tile of the cell by its word.
  unfold continuations
  constructor
  · intro member
    split at member
    · cases member
    · rename_i free
      obtain ⟨tile, passed, rfl⟩ := List.mem_map.mp member
      obtain ⟨lies, passes⟩ := List.mem_filter.mp passed
      exact ⟨_, .of_tile led inside lies (by simpa using free), rfl, passes, rfl⟩
  · intro found
    obtain ⟨word, reaches, inPart, passes, rfl⟩ := found
    obtain ⟨tile, lies, part, rfl, free⟩ := reaches.exists_tile led
    cases inPart
    rw [if_neg (by simp [free])]
    exact List.mem_map.mpr ⟨tile, List.mem_filter.mpr ⟨lies, passes⟩, rfl⟩

/-- What may follow a predicate: a conjunction at the cell straight ahead and a predicate next to
it. -/
theorem afterPredicate_spec {relation : Relation} {joint : Cell}
    (phase : draft.phase = .predicate relation)
    (led : draft.last.position.neighbor draft.heading = .ok joint)
    (inside : board.contains joint = true) :
    ∃ forks, draft.afterPredicate board config relation joint = .ok forks ∧
      ∀ fork, fork ∈ forks ↔ Grows board config draft (.predicate relation) fork := by
  unfold afterPredicate
  split
  · -- The place of the conjunction is taken, and nothing else can follow a predicate.
    rename_i used
    refine ⟨[], rfl, fun fork => ⟨fun member => (List.not_mem_nil member).elim, fun grows => ?_⟩⟩
    cases grows with
    | joined reaches isJoint _ _ _ _ _ _ =>
      obtain ⟨tile, lies, part, rfl, free⟩ := reaches.exists_tile led
      cases isJoint.1
      rw [used] at free
      cases free
  · -- Otherwise the landings around the conjunction are searched for predicates.
    rename_i unused
    obtain ⟨found, landed, landing, _⟩ := landings_spec inside (turns config draft.heading)
    simp only [landed, phase, Bind.bind, Except.bind, Pure.pure, Except.pure]
    refine ⟨_, rfl, fun fork => ?_⟩
    simp only [List.mem_flatMap, List.mem_filter]
    constructor
    · -- Each fork has a conjunction, a landing and a predicate there.
      intro member
      obtain ⟨tile, ⟨lies, joins⟩, ⟨turned, cell⟩, landed, member⟩ := member
      obtain ⟨turns, left, onGrid⟩ := (landing turned cell).mp landed
      dsimp only at member
      split at member
      · cases member
      · rename_i free
        obtain ⟨last, passed, rfl⟩ := List.mem_map.mp member
        obtain ⟨shows, allowed⟩ := List.mem_filter.mp passed
        have isAnd : tile.word = .and := by simpa [Word.isConjunction] using joins
        refine .joined (.of_tile led inside lies (by simpa using unused)) ⟨rfl, isAnd⟩
          (mem_turns_iff.mp turns) left ⟨onGrid, shows⟩ ?_ rfl allowed
        exact uses_eq_false_iff.mp (eq_false_of_ne_true free)
    · -- The two words that are read lie on tiles, and the turn between them is a landing.
      intro grows
      cases grows with
      | @joined _ word _ turned reaches isJoint mayTurn left shows free inPart allowed =>
        obtain ⟨tile, lies, part, rfl, _⟩ := reaches.exists_tile led
        obtain ⟨spelled, position, entity, part⟩ := word
        obtain ⟨rfl, isAnd⟩ := isJoint
        cases inPart
        change tile.word = .and at isAnd
        have unused := uses_eq_false_iff.mpr free
        have lands : (turned, position) ∈ found :=
          (landing turned position).mpr ⟨mem_turns_iff.mpr mayTurn, left, shows.1⟩
        refine ⟨tile, ⟨lies, by simp [isAnd, Word.isConjunction]⟩, _, lands, ?_⟩
        dsimp only
        rw [if_neg (by simp [unused])]
        exact List.mem_map.mpr
          ⟨⟨entity, spelled⟩, List.mem_filter.mpr ⟨shows.2, allowed⟩, rfl⟩

/-- The forks of a draft on the grid are the drafts into which it grows. -/
theorem forks_spec (config : Config) (inside : board.contains draft.last.position = true) :
    ∃ forks, draft.forks board config = .ok forks ∧
      ∀ fork, fork ∈ forks ↔ Grows board config draft draft.phase fork := by
  obtain ⟨next, led, stepped⟩ := Grid.step_of_contains inside draft.heading
  unfold Draft.forks
  simp only [stepped, Bind.bind, Except.bind, Pure.pure, Except.pure]
  cases onGrid : board.contains next with
  | false =>
    -- Whatever is read next shows straight ahead, where the grid has ended.
    refine ⟨[], by simp, fun fork => ⟨fun member => (List.not_mem_nil member).elim, ?_⟩⟩
    intro grows
    have off {word : PlacedWord} (reaches : draft.Reaches board word) : False := by
      have here : next = word.position := Except.ok.inj (led.symm.trans reaches.reached)
      have shows := reaches.shows.1
      rw [← here, onGrid] at shows
      cases shows
    generalize draft.phase = phase at grows
    cases grows with
    | relation reaches _ _ _ => exact (off reaches).elim
    | conjunction reaches _ _ => exact (off reaches).elim
    | subject reaches _ _ => exact (off reaches).elim
    | predicate reaches _ _ => exact (off reaches).elim
    | joined reaches _ _ _ _ _ _ _ => exact (off reaches).elim
  | true =>
    -- On the grid every phase reads on in its own way.
    cases phase : draft.phase with
    | subject => exact ⟨_, rfl, fun fork => mem_afterSubject_iff led onGrid⟩
    | conjunction =>
      refine ⟨_, rfl, fun fork => (mem_continuations_iff led onGrid).trans ⟨fun found => ?_, ?_⟩⟩
      · obtain ⟨word, reaches, inPart, noun, rfl⟩ := found
        exact .subject reaches inPart noun
      · intro grows
        cases grows with
        | subject reaches inPart noun => exact ⟨_, reaches, inPart, noun, rfl⟩
    | relation relation =>
      refine ⟨_, rfl, fun fork => (mem_continuations_iff led onGrid).trans ⟨fun found => ?_, ?_⟩⟩
      · obtain ⟨word, reaches, inPart, allowed, rfl⟩ := found
        exact .predicate reaches inPart allowed
      · intro grows
        cases grows with
        | predicate reaches inPart allowed => exact ⟨_, reaches, inPart, allowed, rfl⟩
    | predicate relation => exact afterPredicate_spec phase led onGrid

/-- A word that is read from a tile tells the tile. -/
theorem tile_of_placed {a b : Tile} {cell cell' : Cell} {part part' : SentencePart}
    (same : PlacedWord.mk a.word cell a.entity part = ⟨b.word, cell', b.entity, part'⟩) :
    a = b := by
  -- A tile is an entity with its word, and both are in the placed word.
  obtain ⟨entity, word⟩ := a
  obtain ⟨entity', word'⟩ := b
  simp only [PlacedWord.mk.injEq] at same
  rw [same.1, same.2.2.1]

/-- The word that follows a subject is read from its tile. -/
theorem tile_of_afterSubject {next : Cell} {tile : Tile} {fork : Draft}
    (taken : draft.afterSubject config next tile = some fork) :
    tile = ⟨fork.last.entity, fork.last.word⟩ := by
  -- Either way the tile is pushed as it is.
  unfold afterSubject at taken
  split at taken <;> split at taken <;> cases taken <;> rfl

/-- Forks that differ in the predicate they read, or in the way there, have different words. -/
theorem pairwise_afterPredicate (nodup : ∀ cell, (board.tiles cell).Nodup) {relation : Relation}
    {joint : Cell} (inside : board.contains joint = true) {forks : List Draft}
    (built : draft.afterPredicate board config relation joint = .ok forks) :
    forks.Pairwise fun a b => a.trail ≠ b.trail := by
  unfold afterPredicate at built
  split at built
  · cases built
    exact .nil
  · obtain ⟨found, landed, landing, sublist⟩ := landings_spec inside (turns config draft.heading)
    simp only [landed, Bind.bind, Except.bind, Pure.pure, Except.pure, Except.ok.injEq] at built
    subst built
    -- The conjunctions come from different tiles.
    refine List.pairwise_flatMap.mpr ⟨fun tile _ => ?_, ?_⟩
    · -- The landings are different cells.
      refine List.pairwise_flatMap.mpr ⟨fun landing _ => ?_, ?_⟩
      · split
        · exact .nil
        · -- The predicates come from different tiles.
          rw [List.pairwise_map]
          refine ((nodup _).filter _).imp fun differ same => differ ?_
          exact tile_of_placed (List.cons.inj same).1
      · -- Two predicates in the same place would be reached by the same turn.
        have directions := sublist.nodup (nodup_turns config draft.heading)
        rw [List.Nodup, List.pairwise_map] at directions
        refine directions.imp_of_mem fun {a b} one other differ x left y right same => ?_
        -- Equal trails end on one cell, which is the landing of both.
        have positions : a.2 = b.2 := by
          split at left
          · cases left
          · split at right
            · cases right
            · obtain ⟨_, _, rfl⟩ := List.mem_map.mp left
              obtain ⟨_, _, rfl⟩ := List.mem_map.mp right
              exact congrArg PlacedWord.position (List.cons.inj same).1
        have one := ((landing a.1 a.2).mp one).2.1
        have other := ((landing b.1 b.2).mp other).2.1
        rw [← positions] at other
        exact differ (Cell.direction_unique one other)
    · refine ((nodup _).filter _).imp fun {a b} differ x left y right same => differ ?_
      obtain ⟨_, _, left⟩ := List.mem_flatMap.mp left
      obtain ⟨_, _, right⟩ := List.mem_flatMap.mp right
      split at left
      · cases left
      · split at right
        · cases right
        · obtain ⟨_, _, rfl⟩ := List.mem_map.mp left
          obtain ⟨_, _, rfl⟩ := List.mem_map.mp right
          exact tile_of_placed (List.cons.inj (List.cons.inj same).2).1

/-- No two forks of a draft have the same words. -/
theorem pairwise_forks (nodup : ∀ cell, (board.tiles cell).Nodup) {forks : List Draft}
    (built : draft.forks board config = .ok forks) :
    forks.Pairwise fun a b => a.trail ≠ b.trail := by
  unfold Draft.forks at built
  cases stepped : board.step draft.last.position draft.heading with
  | error error => simp [stepped, Bind.bind, Except.bind] at built
  | ok reached =>
    simp only [stepped, Bind.bind, Except.bind, Pure.pure, Except.pure] at built
    have continuations (next : Cell) (part : SentencePart) (phase : Phase) (test : Word → Bool) :
        (draft.continuations board next part phase test).Pairwise fun a b => a.trail ≠ b.trail := by
      -- Different tiles make different words.
      unfold Draft.continuations
      split
      · exact .nil
      · rw [List.pairwise_map]
        refine ((nodup _).filter _).imp fun differ same => differ ?_
        exact tile_of_placed (List.cons.inj same).1
    -- Where the grid ends there are no forks, and elsewhere the phase tells how they are made.
    cases reached with
    | none =>
      cases built
      exact .nil
    | some next =>
      dsimp only at built
      split at built
      · cases built
        rw [List.pairwise_filterMap]
        refine (nodup next).imp fun differ x left y right same => differ ?_
        rw [tile_of_afterSubject left, tile_of_afterSubject right, (List.cons.inj same).1]
      · cases built
        exact continuations ..
      · cases built
        exact continuations ..
      · exact pairwise_afterPredicate nodup (Grid.contains_of_step stepped) built

end Draft

end WordTiles
