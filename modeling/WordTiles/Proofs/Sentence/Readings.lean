import WordTiles.Proofs.Sentence.Growth
import WordTiles.Sentence.Agenda

/-! The readings of a draft: what the agenda finds, as a recursion over the forks. -/

namespace WordTiles

namespace Draft

variable {board : Board} {config : Config}

/-- Every sentence into which a draft grows and that cannot be continued, each fork followed to its
end before the next one. -/
def readings (board : Board) (config : Config) (draft : Draft) : List Phrase :=
  match _ : draft.forks board config with
  | .error _ => []
  | .ok forks =>
    -- A draft without forks that is not complete has come to nothing.
    if draft.isComplete && forks.isEmpty then [draft.phrase]
    else forks.attach.flatMap fun fork => fork.1.readings board config
termination_by draft.room board
decreasing_by exact (forks_continue ‹_› fork.2).room_lt

/-- A complete draft without a fork is a reading, and any other has the readings of its forks. -/
theorem readings_eq {draft : Draft} {forks : List Draft}
    (built : draft.forks board config = .ok forks) :
    draft.readings board config =
      if draft.isComplete && forks.isEmpty then [draft.phrase]
      else forks.flatMap (readings board config) := by
  -- The definition carries a proof for each fork, which the list of forks does without.
  rw [readings]
  split
  · rename_i failed
    rw [built] at failed
    cases failed
  · rename_i found same
    rw [built] at same
    cases same
    rw [List.flatMap_subtype (g := readings board config) (fun _ _ => rfl), List.unattach_attach]

/-- The drafts into which those that begin a search grow. -/
inductive Reached (board : Board) (config : Config) : Draft → Prop where
  | start {draft : Draft} (begins : draft ∈ Agenda.starts board) : Reached board config draft
  | grow {draft fork : Draft} (before : Reached board config draft)
      (grows : Grows board config draft draft.phase fork) : Reached board config fork

/-- A draft that begins a search reads a noun that shows, in some direction. -/
theorem mem_starts_iff {draft : Draft} :
    draft ∈ Agenda.starts board ↔ ∃ word heading, board.Shows word ∧ word.part = .subject ∧
      word.word.isNoun = true ∧ draft = ⟨word, [], heading, .subject⟩ := by
  -- A noun is found in the stack of its own cell.
  unfold Agenda.starts
  constructor
  · intro listed
    obtain ⟨cell, inside, listed⟩ := List.mem_flatMap.mp listed
    obtain ⟨tile, passed, listed⟩ := List.mem_flatMap.mp listed
    obtain ⟨heading, _, rfl⟩ := List.mem_map.mp listed
    obtain ⟨lies, noun⟩ := List.mem_filter.mp passed
    exact ⟨_, heading, ⟨Grid.mem_cells_iff.mp inside, lies⟩, rfl, noun, rfl⟩
  · intro found
    obtain ⟨⟨spelled, position, entity, part⟩, heading, shows, rfl, noun, rfl⟩ := found
    refine List.mem_flatMap.mpr ⟨position, Grid.mem_cells_iff.mpr shows.1, ?_⟩
    refine List.mem_flatMap.mpr ⟨⟨entity, spelled⟩, List.mem_filter.mpr ⟨shows.2, noun⟩, ?_⟩
    exact List.mem_map.mpr ⟨heading, heading.mem_all, rfl⟩

/-- The noun of a draft that begins a search shows. -/
theorem shows_of_mem_starts {draft : Draft} (begins : draft ∈ Agenda.starts board) :
    board.Shows draft.last := by
  -- A search begins at tiles of the board.
  obtain ⟨word, heading, shows, _, _, rfl⟩ := mem_starts_iff.mp begins
  exact shows

/-- The last word of a draft that is reached shows. -/
theorem Reached.shows {draft : Draft} (reached : draft.Reached board config) :
    board.Shows draft.last := by
  -- The last word was the first one, or came with the last growth.
  cases reached with
  | start begins => exact shows_of_mem_starts begins
  | grow _ grows => exact grows.shows

/-- The forks of a draft on the grid are on the grid. -/
theorem inside_of_mem_forks {draft fork : Draft} {forks : List Draft}
    (inside : board.contains draft.last.position = true)
    (built : draft.forks board config = .ok forks) (member : fork ∈ forks) :
    board.contains fork.last.position = true := by
  -- A fork ends at a word that shows, and these lie on the grid.
  obtain ⟨found, same, grows⟩ := forks_spec config inside
  rw [built] at same
  cases same
  exact ((grows fork).mp member).shows.1

end Draft

namespace Agenda

variable {board : Board} {config : Config}

open Draft

/-- Following an agenda of drafts on the grid never fails, and finds the readings of its drafts, one
draft after the other. -/
theorem drain_eq (drafts : List Draft) (found : Array Phrase)
    (inside : ∀ draft ∈ drafts, board.contains draft.last.position = true) :
    drain board config drafts found =
      .ok (found ++ (drafts.flatMap (readings board config)).toArray) := by
  -- The first draft makes way for its forks, whose readings are its own.
  fun_induction drain board config drafts found with
  | case1 found => simp
  | case2 found draft rest error failed =>
    obtain ⟨forks, built, _⟩ := forks_spec config (inside draft (by simp))
    rw [built] at failed
    cases failed
  | case3 found draft rest forks built ih =>
    -- The forks of a draft on the grid are on the grid.
    have next : ∀ other ∈ forks ++ rest, board.contains other.last.position = true := by
      intro other member
      rcases List.mem_append.mp member with fork | later
      · exact inside_of_mem_forks (inside draft (by simp)) built fork
      · exact inside other (by simp [later])
    simp only [dite_eq_ite] at ih
    rw [ih next, List.flatMap_cons, readings_eq built, List.flatMap_append]
    cases done : draft.isComplete && forks.isEmpty with
    | false => simp
    | true =>
      -- Without a fork nothing comes before the rest.
      have none : forks = [] := by
        simp only [Bool.and_eq_true, List.isEmpty_iff] at done
        exact done.2
      simp [none]

/-- The sentences of a board are the readings of the drafts that begin the search. -/
theorem sentences_eq : sentences board config =
    .ok ((starts board).flatMap (readings board config)) := by
  -- The drafts that begin the search are on the grid, so that following them never fails.
  have inside : ∀ draft ∈ starts board, board.contains draft.last.position = true :=
    fun draft begins => (shows_of_mem_starts begins).1
  simp [sentences, drain_eq _ _ inside, Bind.bind, Except.bind, Pure.pure, Except.pure]

end Agenda

namespace Draft

variable {board : Board} {config : Config}

/-- Forks of one draft have read equally many words. -/
theorem Grows.length_eq {draft a b : Draft} {phase : Phase}
    (left : Grows board config draft phase a) (right : Grows board config draft phase b) :
    a.trail.length = b.trail.length := by
  -- The phase alone decides whether one word or two are added.
  cases left <;> cases right <;> rfl

/-- The words of a fork begin with those of the draft. -/
theorem Grows.prefix_words {draft fork : Draft} {phase : Phase}
    (grows : Grows board config draft phase fork) :
    draft.phrase.words <+: fork.phrase.words := by
  -- The words are kept latest first, and each step puts one or two in front.
  refine List.reverse_prefix.mpr ?_
  cases grows with
  | relation => exact ⟨[_], rfl⟩
  | conjunction => exact ⟨[_], rfl⟩
  | subject => exact ⟨[_], rfl⟩
  | predicate => exact ⟨[_], rfl⟩
  | joined => exact ⟨[_, _], rfl⟩

/-- Every reading begins with the words of the draft. -/
theorem prefix_of_mem_readings {draft : Draft}
    (inside : board.contains draft.last.position = true) {phrase : Phrase}
    (member : phrase ∈ draft.readings board config) :
    draft.phrase.words <+: phrase.words := by
  -- Forks only add words, so by induction their readings begin with the words of the draft.
  induction draft using readings.induct board config with
  | case1 draft error failed =>
    obtain ⟨forks, built, _⟩ := forks_spec config inside
    rw [built] at failed
    cases failed
  | case2 draft forks built done =>
    rw [readings_eq built, if_pos done, List.mem_singleton] at member
    exact member ▸ List.prefix_refl _
  | case3 draft forks built more ih =>
    rw [readings_eq built, if_neg more] at member
    obtain ⟨fork, listed, member⟩ := List.mem_flatMap.mp member
    obtain ⟨_, same, grows⟩ := forks_spec config inside
    rw [built] at same
    cases same
    have grown := (grows fork).mp listed
    exact grown.prefix_words.trans (ih ⟨fork, listed⟩ grown.shows.1 member)

/-- Forks of one draft that have a reading in common have read the same words. -/
theorem trail_eq_of_readings {draft a b : Draft} {phase : Phase}
    (left : Grows board config draft phase a) (right : Grows board config draft phase b)
    {phrase : Phrase} (one : phrase ∈ a.readings board config)
    (other : phrase ∈ b.readings board config) : a.trail = b.trail := by
  -- Both begin the reading, and they are equally long.
  have first := prefix_of_mem_readings left.shows.1 one
  have second := prefix_of_mem_readings right.shows.1 other
  have lengths : a.phrase.words.length = b.phrase.words.length := by
    change a.trail.reverse.length = b.trail.reverse.length
    rw [List.length_reverse, List.length_reverse, left.length_eq right]
  have same := (List.prefix_of_prefix_length_le first second lengths.le).eq_of_length lengths
  exact List.reverse_injective same

/-- No reading of a draft is found twice. -/
theorem nodup_readings (nodup : ∀ cell, (board.tiles cell).Nodup) {draft : Draft}
    (inside : board.contains draft.last.position = true) :
    (draft.readings board config).Nodup := by
  -- Different forks have read different words, so no reading belongs to two of them.
  induction draft using readings.induct board config with
  | case1 draft error failed =>
    obtain ⟨forks, built, _⟩ := forks_spec config inside
    rw [built] at failed
    cases failed
  | case2 draft forks built done =>
    rw [readings_eq built, if_pos done]
    exact List.nodup_singleton _
  | case3 draft forks built more ih =>
    obtain ⟨_, same, grows⟩ := forks_spec config inside
    rw [built] at same
    cases same
    rw [readings_eq built, if_neg more]
    refine List.nodup_flatMap.mpr ⟨fun fork listed => ?_, ?_⟩
    · exact ih ⟨fork, listed⟩ ((grows fork).mp listed).shows.1
    · refine (pairwise_forks nodup built).imp_of_mem fun left right differ phrase one other => ?_
      exact differ (trail_eq_of_readings ((grows _).mp left) ((grows _).mp right) one other)

/-- A reading of a draft that begins a search goes on from its noun in its direction. -/
theorem second_of_mem_readings {draft : Draft} (begins : draft ∈ Agenda.starts board)
    {phrase : Phrase} (member : phrase ∈ draft.readings board config) :
    ∃ next rest, phrase.words = draft.last :: next :: rest ∧
      draft.last.LeadsTo draft.heading next := by
  obtain ⟨word, heading, shows, _, _, rfl⟩ := mem_starts_iff.mp begins
  have inside : board.contains (Draft.mk word [] heading .subject).last.position = true := shows.1
  obtain ⟨forks, built, grows⟩ := forks_spec config inside
  rw [readings_eq built] at member
  simp only [isComplete, Bool.false_and, Bool.false_eq_true, if_false] at member
  obtain ⟨fork, listed, member⟩ := List.mem_flatMap.mp member
  have grown := (grows fork).mp listed
  obtain ⟨rest, same⟩ := prefix_of_mem_readings grown.shows.1 member
  -- After one step there are two words, and the second lies straight ahead of the first.
  cases grown with
  | relation reaches _ _ _ => exact ⟨_, rest, same.symm, reaches.reached⟩
  | conjunction reaches _ _ => exact ⟨_, rest, same.symm, reaches.reached⟩

end Draft

namespace Agenda

variable {board : Board} {config : Config}

open Draft

/-- The drafts that begin a search differ in their noun or in their direction. -/
theorem pairwise_starts (nodup : ∀ cell, (board.tiles cell).Nodup) :
    (starts board).Pairwise fun a b => a.last = b.last → a.heading ≠ b.heading := by
  unfold starts
  refine List.pairwise_flatMap.mpr ⟨fun cell _ => ?_, ?_⟩
  · refine List.pairwise_flatMap.mpr ⟨fun tile _ => ?_, ?_⟩
    · -- From one tile each direction is tried once.
      have distinct : Direction.all.Pairwise (· ≠ ·) := by decide
      refine List.pairwise_map.mpr (distinct.imp ?_)
      intro a b differ _
      exact differ
    · refine ((nodup cell).filter _).imp fun differ a left b right same => ?_
      obtain ⟨_, _, rfl⟩ := List.mem_map.mp left
      obtain ⟨_, _, rfl⟩ := List.mem_map.mp right
      exact (differ (tile_of_placed same)).elim
  · refine (Grid.nodup_cells board.toGrid).imp fun differ a left b right same => ?_
    obtain ⟨_, _, left⟩ := List.mem_flatMap.mp left
    obtain ⟨_, _, right⟩ := List.mem_flatMap.mp right
    obtain ⟨_, _, rfl⟩ := List.mem_map.mp left
    obtain ⟨_, _, rfl⟩ := List.mem_map.mp right
    exact (differ (congrArg PlacedWord.position same)).elim

/-- No sentence of a board is found twice. -/
theorem nodup_sentences (nodup : ∀ cell, (board.tiles cell).Nodup) :
    ((starts board).flatMap (readings board config)).Nodup := by
  refine List.nodup_flatMap.mpr ⟨fun draft begins => ?_, ?_⟩
  · exact nodup_readings nodup (shows_of_mem_starts begins).1
  · refine (pairwise_starts nodup).imp_of_mem fun left right differ phrase one other => ?_
    -- The first two words of a reading tell its noun and its direction.
    obtain ⟨next, _, words, led⟩ := second_of_mem_readings left one
    obtain ⟨next', _, words', led'⟩ := second_of_mem_readings right other
    rw [words, List.cons.injEq, List.cons.injEq] at words'
    obtain ⟨same, rfl, _⟩ := words'
    rw [← same] at led'
    exact differ same (Cell.direction_unique led led')

/-- Whatever the agenda finds is a complete draft without a fork. -/
theorem exists_reached_of_mem {draft : Draft} (reached : Reached board config draft)
    {phrase : Phrase} (member : phrase ∈ draft.readings board config) :
    ∃ complete, Reached board config complete ∧ complete.isComplete = true ∧
      complete.forks board config = .ok [] ∧ complete.phrase = phrase := by
  -- By induction along the forks, the reading belongs to the last draft on its way.
  have inside := reached.shows.1
  induction draft using readings.induct board config with
  | case1 draft error failed =>
    obtain ⟨forks, built, _⟩ := forks_spec config inside
    -- On the grid the forks are found.
    rw [built] at failed
    cases failed
  | case2 draft forks built done =>
    rw [readings_eq built, if_pos done, List.mem_singleton] at member
    simp only [Bool.and_eq_true, List.isEmpty_iff] at done
    obtain ⟨complete, rfl⟩ := done
    exact ⟨draft, reached, complete, built, member.symm⟩
  | case3 draft forks built more ih =>
    obtain ⟨_, same, grows⟩ := forks_spec config inside
    rw [built] at same
    cases same
    rw [readings_eq built, if_neg more] at member
    -- The reading is one of a fork, which is reached as well.
    obtain ⟨fork, listed, member⟩ := List.mem_flatMap.mp member
    have grown := reached.grow ((grows fork).mp listed)
    exact ih ⟨fork, listed⟩ grown member grown.shows.1

/-- The readings of every draft that is reached are found. -/
theorem readings_subset {draft : Draft} (reached : Reached board config draft) {phrase : Phrase}
    (member : phrase ∈ draft.readings board config) :
    phrase ∈ (starts board).flatMap (readings board config) := by
  -- The readings of a fork are among those of the draft that it comes from.
  induction reached with
  | start begins => exact List.mem_flatMap.mpr ⟨_, begins, member⟩
  | @grow draft fork before grows ih =>
    obtain ⟨forks, built, growing⟩ := forks_spec config before.shows.1
    have listed := (growing fork).mpr grows
    refine ih ?_
    rw [readings_eq built, if_neg]
    · exact List.mem_flatMap.mpr ⟨fork, listed, member⟩
    · simp [List.ne_nil_of_mem listed]

/-- The sentences that the agenda finds are the complete drafts without a fork. -/
theorem mem_sentences_iff {phrase : Phrase} :
    phrase ∈ (starts board).flatMap (readings board config) ↔
      ∃ complete, Reached board config complete ∧ complete.isComplete = true ∧
        complete.forks board config = .ok [] ∧ complete.phrase = phrase := by
  -- A complete draft without a fork has its own phrase as its reading.
  constructor
  · intro member
    obtain ⟨draft, begins, member⟩ := List.mem_flatMap.mp member
    exact exists_reached_of_mem (.start begins) member
  · intro found
    obtain ⟨complete, reached, isComplete, stuck, rfl⟩ := found
    refine readings_subset reached ?_
    rw [readings_eq stuck, isComplete]
    simp

end Agenda

end WordTiles
