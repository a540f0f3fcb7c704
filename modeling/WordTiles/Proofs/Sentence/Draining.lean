import Mathlib.Data.List.Permutation
import WordTiles.Proofs.Sentence.Readings

/-! How an agenda drains: it is empty after finitely many pops, and whatever is pushed on the way is
one or two words longer than the draft that made way for it, on a grid with four places a cell. -/

namespace WordTiles

/-- A grid has as many cells as its extents tell. -/
theorem Grid.length_cells (grid : Grid) :
    grid.cells.length = grid.width.toNatClampNeg * grid.height.toNatClampNeg := by
  -- Each row has one cell for each column.
  unfold cells
  rw [List.length_flatMap]
  simp [Nat.mul_comm]

/-- A board has a place for each of the four parts on every cell. -/
theorem Board.length_places (board : Board) : board.places.length =
    4 * (board.width.toNatClampNeg * board.height.toNatClampNeg) := by
  -- The places are listed part by part, for each of the cells.
  unfold places
  rw [List.length_flatMap, ← Grid.length_cells]
  simp [SentencePart.all, Nat.mul_comm]

namespace Draft

variable {board : Board} {config : Config} {draft fork : Draft}

/-- The words of a draft lie on the grid, and no two of them take the same place. -/
structure Fits (board : Board) (draft : Draft) : Prop where
  inside : ∀ word ∈ draft.trail, board.contains word.position = true
  distinct : draft.places.Nodup

/-- A draft that fits has no more words than the board has places. -/
theorem Fits.length_le (fits : draft.Fits board) : draft.phrase.length ≤
    4 * (board.width.toNatClampNeg * board.height.toNatClampNeg) := by
  -- The words take different places of the board.
  have within : draft.places ⊆ board.places := by
    intro place taken
    obtain ⟨word, member, rfl⟩ := List.mem_map.mp taken
    exact Board.mem_places (fits.inside word member) word.part
  have bound := fits.distinct.length_le_of_subset within
  rw [Board.length_places, places, List.length_map] at bound
  rwa [Phrase.length, phrase, List.length_reverse]

/-- A draft grows by one or two words, which lie on the grid in places of their own. -/
theorem Grows.exists_added {phase : Phase} (grows : draft.Grows board config phase fork) :
    ∃ added, fork.trail = added ++ draft.trail ∧ (added.length = 1 ∨ added.length = 2) ∧
      (added.map PlacedWord.place).Nodup ∧
        ∀ word ∈ added, board.contains word.position = true ∧ word.place ∉ draft.places := by
  -- All but the last way to grow add the one word that is reached.
  have single (word : PlacedWord) (reaches : draft.Reaches board word) :
      ∀ other ∈ [word], board.contains other.position = true ∧ other.place ∉ draft.places := by
    intro other member
    rw [List.mem_singleton.mp member]
    exact ⟨reaches.shows.1, reaches.free⟩
  cases grows with
  | relation reaches _ _ _ => exact ⟨[_], rfl, .inl rfl, List.nodup_singleton _, single _ reaches⟩
  | conjunction reaches _ _ => exact ⟨[_], rfl, .inl rfl, List.nodup_singleton _, single _ reaches⟩
  | subject reaches _ _ => exact ⟨[_], rfl, .inl rfl, List.nodup_singleton _, single _ reaches⟩
  | predicate reaches _ _ => exact ⟨[_], rfl, .inl rfl, List.nodup_singleton _, single _ reaches⟩
  | @joined joint word _ _ reaches isJoint _ _ shows free inPart _ =>
    refine ⟨[word, joint], rfl, .inr rfl, ?_, ?_⟩
    · -- The two words are in different parts.
      have differ : word.place ≠ joint.place := by
        intro same
        have parts : word.part = joint.part := congrArg Prod.snd same
        rw [inPart, isJoint.1] at parts
        cases parts
      simp [differ]
    · intro other member
      rcases List.mem_pair.mp member with rfl | rfl
      · exact ⟨shows.1, free⟩
      · exact ⟨reaches.shows.1, reaches.free⟩

/-- Whatever grows from a draft that fits does fit. -/
theorem Fits.grow (fits : draft.Fits board) {phase : Phase}
    (grows : draft.Grows board config phase fork) : fork.Fits board := by
  -- The words that are added come to places of their own, and the others stay where they are.
  obtain ⟨added, trail, _, distinct, free⟩ := grows.exists_added
  constructor
  · intro word member
    rw [trail] at member
    rcases List.mem_append.mp member with new | old
    · exact (free word new).1
    · exact fits.inside word old
  · unfold places
    rw [trail, List.map_append]
    refine List.nodup_append.mpr ⟨distinct, fits.distinct, ?_⟩
    intro place new other old same
    obtain ⟨word, member, rfl⟩ := List.mem_map.mp new
    exact (free word member).2 (same ▸ old)

/-- The forks of a draft that fits are found, and it grows into each of them. -/
theorem Fits.exists_forks (fits : draft.Fits board) (config : Config) :
    ∃ forks, draft.forks board config = .ok forks ∧
      ∀ fork ∈ forks, draft.Grows board config draft.phase fork := by
  -- Forks are looked up from the last word of the draft, which lies on the grid.
  obtain ⟨forks, built, grows⟩ := forks_spec config (fits.inside draft.last (.head _))
  exact ⟨forks, built, fun fork member => (grows fork).mp member⟩

end Draft

/-- A search under way: the drafts that are still to be followed, the one to be followed next first,
and the sentences found so far. -/
structure Pursuit where
  drafts : List Draft
  found : Array Phrase

namespace Pursuit

/-- One pop: the first draft makes way for its forks, and counts as found if it is a sentence and
has none. -/
inductive Pops (board : Board) (config : Config) : Pursuit → Pursuit → Prop where
  | pop {draft : Draft} {rest forks : List Draft} {found : Array Phrase}
      (built : draft.forks board config = .ok forks) :
      Pops board config ⟨draft :: rest, found⟩
        ⟨forks ++ rest,
          if draft.isComplete && forks.isEmpty then found.push draft.phrase else found⟩

/-- So many pops lead from one pursuit to another. -/
inductive Runs (board : Board) (config : Config) : Nat → Pursuit → Pursuit → Prop where
  | none {pursuit : Pursuit} : Runs board config 0 pursuit pursuit
  | pop {count : Nat} {before middle after : Pursuit} (pops : Pops board config before middle)
      (later : Runs board config count middle after) : Runs board config (count + 1) before after

/-- The next pop takes this draft off and puts this fork on. -/
def Pushes (board : Board) (config : Config) (pursuit : Pursuit) (draft fork : Draft) : Prop :=
  -- The fork is one of those that the next pop puts in the place of its draft.
  ∃ rest forks, pursuit.drafts = draft :: rest ∧ draft.forks board config = .ok forks ∧
    fork ∈ forks

variable {board : Board} {config : Config} {before middle after last : Pursuit}

/-- A pop leads to one pursuit only. -/
theorem Pops.unique (one : Pops board config before middle)
    (other : Pops board config before last) : middle = last := by
  -- Forks are computed, and so there is one list of them.
  cases one with
  | pop built =>
    cases other with
    | pop again =>
      cases built.symm.trans again
      rfl

/-- Every run is the beginning of the one that drains the agenda. -/
theorem Runs.exists_rest {pops count : Nat} {sentences : Array Phrase}
    (whole : Runs board config pops before ⟨[], sentences⟩)
    (run : Runs board config count before after) :
    ∃ further, count + further = pops ∧ Runs board config further after ⟨[], sentences⟩ := by
  -- By induction on the run, whose first pop is that of the whole one.
  induction run generalizing pops with
  | none => exact ⟨pops, Nat.zero_add _, whole⟩
  | pop first _ ih =>
    cases whole with
    | none => cases first
    | pop again later =>
      cases first.unique again
      obtain ⟨further, total, rest⟩ := ih later
      exact ⟨further, by omega, rest⟩

/-- All drafts of a pursuit fit the board. -/
def Fits (board : Board) (pursuit : Pursuit) : Prop :=
  -- This is what every pop preserves.
  ∀ draft ∈ pursuit.drafts, draft.Fits board

/-- A pop keeps the drafts fitting. -/
theorem Fits.pop (fits : before.Fits board) (pops : Pops board config before after) :
    after.Fits board := by
  -- The forks grow from a draft that fits, and the other drafts were there before.
  cases pops with
  | @pop draft rest forks found built =>
    intro other member
    rcases List.mem_append.mp member with new | old
    · obtain ⟨_, same, grows⟩ := (fits draft (.head _)).exists_forks config
      cases built.symm.trans same
      exact (fits draft (.head _)).grow (grows other new)
    · exact fits other (.tail _ old)

/-- So do any number of pops. -/
theorem Fits.run {count : Nat} (fits : before.Fits board)
    (run : Runs board config count before after) : after.Fits board := by
  -- By induction on the run, pop by pop.
  induction run with
  | none => exact fits
  | pop first _ ih => exact ih (fits.pop first)

/-- Following an agenda of drafts that fit pops it until it is empty. -/
theorem Fits.exists_run {drafts : List Draft} {found : Array Phrase}
    (fits : Fits board ⟨drafts, found⟩) :
    ∃ pops sentences, Agenda.drain board config drafts found = .ok sentences ∧
      Runs board config pops ⟨drafts, found⟩ ⟨[], sentences⟩ := by
  -- Each call of the loop on an agenda that is not empty is one pop.
  fun_induction Agenda.drain board config drafts found with
  | case1 found => exact ⟨0, found, rfl, .none⟩
  | case2 found draft rest error failed =>
    obtain ⟨forks, built, _⟩ := (fits draft (.head _)).exists_forks config
    cases failed.symm.trans built
  | case3 found draft rest forks built ih =>
    have first : Pops board config ⟨draft :: rest, found⟩ _ := .pop built
    simp only [dite_eq_ite] at ih
    obtain ⟨pops, sentences, drained, later⟩ := ih (fits.pop first)
    exact ⟨pops + 1, sentences, drained, .pop first later⟩

end Pursuit

namespace Agenda

/-- Whatever drafts an agenda starts with, as long as they fit the board, it drains: it is empty
after a number of pops, and every run of pops from its start is the beginning of that one. A draft
that is pushed on the way is the draft that was popped and one or two words more; it takes no place
twice, and so it has at most four words for each cell of the grid. -/
theorem drain_ends {board : Board} {drafts : List Draft}
    (fits : ∀ draft ∈ drafts, draft.Fits board) (config : Config) (found : Array Phrase) :
    ∃ pops sentences, drain board config drafts found = .ok sentences ∧
      Pursuit.Runs board config pops ⟨drafts, found⟩ ⟨[], sentences⟩ ∧
      ∀ count reached, Pursuit.Runs board config count ⟨drafts, found⟩ reached →
        (∃ further, count + further = pops ∧
          Pursuit.Runs board config further reached ⟨[], sentences⟩) ∧
        ∀ draft fork, reached.Pushes board config draft fork →
          (∃ added, fork.phrase.words = draft.phrase.words ++ added ∧
            (added.length = 1 ∨ added.length = 2)) ∧
          (fork.phrase.words.map PlacedWord.place).Nodup ∧
          fork.phrase.length ≤ 4 * (board.width.toNatClampNeg * board.height.toNatClampNeg) := by
  have start : Pursuit.Fits board ⟨drafts, found⟩ := fits
  obtain ⟨pops, sentences, drained, whole⟩ : ∃ pops sentences,
      drain board config drafts found = .ok sentences ∧
        Pursuit.Runs board config pops ⟨drafts, found⟩ ⟨[], sentences⟩ := start.exists_run
  refine ⟨pops, sentences, drained, whole, fun count reached run => ⟨whole.exists_rest run, ?_⟩⟩
  intro draft fork pushes
  obtain ⟨rest, forks, popped, built, member⟩ := pushes
  -- The draft that is popped fits, since every pop keeps the drafts fitting.
  have fitting : draft.Fits board := start.run run draft (popped ▸ .head rest)
  obtain ⟨_, same, grows⟩ := fitting.exists_forks config
  cases built.symm.trans same
  have fits := fitting.grow (grows fork member)
  obtain ⟨added, trail, length, _⟩ := (grows fork member).exists_added
  refine ⟨⟨added.reverse, ?_, by rwa [List.length_reverse]⟩, ?_, fits.length_le⟩
  · rw [Draft.phrase, Draft.phrase, trail, List.reverse_append]
  · rw [Draft.phrase, List.map_reverse, List.nodup_reverse]
    exact fits.distinct

/-- A row of three tiles, the second of which is listed twice in the stack of its cell. -/
def doubledRow : Board where
  -- No world has such a board, yet the loop ends on it as well.
  width := 3
  height := 1
  tiles := fun cell =>
    if cell = ⟨0, 0⟩ then [⟨⟨0⟩, .rock⟩]
    else if cell = ⟨1, 0⟩ then [⟨⟨1⟩, .is⟩, ⟨⟨1⟩, .is⟩]
    else if cell = ⟨2, 0⟩ then [⟨⟨2⟩, .push⟩]
    else []

/-- The agenda that follows the noun of that row drains, and finds the sentence twice. -/
theorem drain_ends_doubledRow : ∃ start pops sentences,
    start = Draft.start ⟨0, 0⟩ ⟨⟨0⟩, .rock⟩ .east ∧ start.Fits doubledRow ∧
      drain doubledRow .standard [start] #[] = .ok sentences ∧
        Pursuit.Runs doubledRow .standard pops ⟨[start], #[]⟩ ⟨[], sentences⟩ ∧
          sentences.toList.map Phrase.spelling = [[.rock, .is, .push], [.rock, .is, .push]] := by
  -- The only word of the first draft lies inside.
  have fits : (Draft.start ⟨0, 0⟩ ⟨⟨0⟩, .rock⟩ .east).Fits doubledRow := by
    refine ⟨fun word member => ?_, List.nodup_singleton _⟩
    rw [List.mem_singleton.mp member]
    decide
  have known : (do
      return (← drain doubledRow .standard [.start ⟨0, 0⟩ ⟨⟨0⟩, .rock⟩ .east] #[]).toList.map
        Phrase.spelling : Except Error _) =
      .ok [[.rock, .is, .push], [.rock, .is, .push]] := by
    -- Evaluation takes the equations of `≤` and of pairs that the imported modules hold.
    cbv
  obtain ⟨pops, sentences, drained, run, _⟩ :=
    drain_ends (List.forall_mem_singleton.mpr fits) .standard #[]
  rw [drained] at known
  exact ⟨_, pops, sentences, rfl, fits, drained, run, Except.ok.inj known⟩

end Agenda

end WordTiles
