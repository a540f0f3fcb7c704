import WordTiles.Sentence.Draft

/-! Progress: every continuation of a draft takes a new place of the board, so that no draft goes on
forever. -/

namespace WordTiles.Draft

/-- The number of places of the board that a draft has not used. -/
def room (board : Board) (draft : Draft) : Nat :=
  -- A place counts until a word of the draft has taken it.
  board.places.countP fun (cell, part) => !draft.uses cell part

/-- One draft continues another: it has one or two words more, and the first of these takes a place
on the grid that the other had not used. -/
def Continues (board : Board) (fork draft : Draft) : Prop :=
  ∃ (added : PlacedWord) (further : List PlacedWord),
    further.length ≤ 1 ∧ fork.trail = further ++ added :: draft.trail ∧
      board.contains added.position = true ∧ draft.uses added.position added.part = false

/-- A draft after one more word in a free place continues the draft before it. -/
theorem push_continues {board : Board} {draft : Draft} {cell : Cell} {part : SentencePart}
    (inside : board.contains cell = true) (free : draft.uses cell part = false) (tile : Tile)
    (phase : Phase) : (draft.push cell tile part phase).Continues board draft :=
  -- The added word is the one that was pushed, and nothing follows it.
  ⟨⟨tile.word, cell, tile.entity, part⟩, [], by simp, rfl, inside, free⟩

/-- Whatever follows a subject takes a free place. -/
theorem afterSubject_continues {board : Board} {config : Config} {draft fork : Draft} {cell : Cell}
    {tile : Tile} (inside : board.contains cell = true)
    (taken : draft.afterSubject config cell tile = some fork) : fork.Continues board draft := by
  -- Both kinds of continuation test their own place first.
  unfold afterSubject at taken
  split at taken <;> split at taken
  · rename_i test
    simp only [Bool.and_eq_true, Bool.not_eq_true'] at test
    cases taken
    exact push_continues inside test.1 tile _
  · simp at taken
  · rename_i test
    simp only [Bool.and_eq_true, Bool.not_eq_true'] at test
    cases taken
    exact push_continues inside test.2 tile _
  · simp at taken

/-- Continuations by the words of one cell take a free place. -/
theorem continuations_continue {board : Board} {draft fork : Draft} {cell : Cell}
    {part : SentencePart} {phase : Phase} {test : Word → Bool} (inside : board.contains cell = true)
    (member : fork ∈ draft.continuations board cell part phase test) :
    fork.Continues board draft := by
  -- The place is tested once, for all words of the cell.
  unfold continuations at member
  split at member
  · simp at member
  · rename_i free
    obtain ⟨tile, _, rfl⟩ := List.mem_map.mp member
    exact push_continues inside (by simpa using free) tile phase

/-- Continuations by a conjunction and a predicate take a free place with the conjunction. -/
theorem afterPredicate_continues {board : Board} {config : Config} {draft fork : Draft}
    {relation : Relation} {joint : Cell} {forks : List Draft} (inside : board.contains joint = true)
    (built : draft.afterPredicate board config relation joint = .ok forks) (member : fork ∈ forks) :
    fork.Continues board draft := by
  -- The conjunction is the first of the two words, and its place is tested before anything else.
  unfold afterPredicate at built
  split at built
  · cases built
    simp at member
  · rename_i free
    cases landed : landings board.toGrid joint (turns config draft.heading) with
    | error error => simp [landed, Bind.bind, Except.bind] at built
    | ok landings =>
      simp only [landed, Bind.bind, Except.bind, Pure.pure, Except.pure, Except.ok.injEq] at built
      subst built
      obtain ⟨tile, _, member⟩ := List.mem_flatMap.mp member
      obtain ⟨⟨direction, cell⟩, _, member⟩ := List.mem_flatMap.mp member
      dsimp only at member
      split at member
      · simp at member
      · obtain ⟨last, _, rfl⟩ := List.mem_map.mp member
        exact ⟨⟨tile.word, joint, tile.entity, .conjunction⟩,
          [⟨last.word, cell, last.entity, .predicate⟩], by simp, rfl, inside, by simpa using free⟩

/-- Every fork of a draft continues it. -/
theorem forks_continue {board : Board} {config : Config} {draft fork : Draft} {forks : List Draft}
    (built : draft.forks board config = .ok forks) (member : fork ∈ forks) :
    fork.Continues board draft := by
  -- The cell that follows is on the grid, and each stage takes a free place of it.
  unfold Draft.forks at built
  cases stepped : board.step draft.last.position draft.heading with
  | error error => simp [stepped, Bind.bind, Except.bind] at built
  | ok reached =>
    simp only [stepped, Bind.bind, Except.bind, Pure.pure, Except.pure] at built
    cases reached with
    | none =>
      cases built
      simp at member
    | some next =>
      have inside := Grid.contains_of_step stepped
      dsimp only at built
      split at built
      · cases built
        obtain ⟨tile, _, taken⟩ := List.mem_filterMap.mp member
        exact afterSubject_continues inside taken
      · cases built
        exact continuations_continue inside member
      · cases built
        exact continuations_continue inside member
      · exact afterPredicate_continues inside built member

/-- A list of which fewer members pass a stricter test, one of them being told apart. -/
private theorem countP_lt_countP {α : Type} {loose strict : α → Bool} {list : List α}
    (weaker : ∀ x ∈ list, strict x = true → loose x = true) {witness : α} (member : witness ∈ list)
    (passes : loose witness = true) (fails : strict witness = false) :
    list.countP strict < list.countP loose := by
  -- Up to the witness the counts are ordered, and at the witness they part.
  induction list with
  | nil => simp at member
  | cons head rest ih =>
    have tail := fun x inside => weaker x (List.mem_cons_of_mem _ inside)
    have least : rest.countP strict ≤ rest.countP loose := List.countP_mono_left tail
    rcases List.mem_cons.mp member with rfl | member
    · simp only [List.countP_cons, passes, fails]
      simp only [Bool.false_eq_true, if_false, if_true]
      omega
    · have less := ih tail member
      have atHead := weaker head (by simp)
      simp only [List.countP_cons]
      cases strictHead : strict head with
      | false => simp only [Bool.false_eq_true, if_false]; split <;> omega
      | true => simp only [atHead strictHead, if_true]; omega

/-- A continuation leaves less room. -/
theorem Continues.room_lt {board : Board} {draft fork : Draft}
    (continues : fork.Continues board draft) : fork.room board < draft.room board := by
  -- What the draft uses stays in use, and the added place joins it.
  obtain ⟨added, further, _, trail, inside, free⟩ := continues
  have mono : ∀ cell part, draft.uses cell part = true → fork.uses cell part = true := by
    intro cell part used
    unfold uses at used ⊢
    rw [trail, List.any_append, List.any_cons, used]
    simp
  have taken : fork.uses added.position added.part = true := by
    unfold uses
    rw [trail, List.any_append, List.any_cons]
    simp
  refine countP_lt_countP ?_ (Board.mem_places inside added.part) (by simp [free]) (by simp [taken])
  rintro ⟨cell, part⟩ _ unused
  cases used : draft.uses cell part with
  | false => simpa using used
  | true => simp [mono cell part used] at unused

end WordTiles.Draft
