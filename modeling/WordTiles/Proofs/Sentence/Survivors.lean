import WordTiles.Findings
import WordTiles.Proofs.Sentence.Maximal
import WordTiles.Proofs.Sentence.Prune
import WordTiles.Proofs.Sentence.Reversal

/-! Which sentences survive the pruning, told by the words on the board alone. -/

namespace WordTiles

/-- The paths of a board that survive both filters. -/
def Board.paths (board : Board) (config : Config) : Except Error (List Phrase) := do
  -- This is what a search does before it collects.
  Prune.dropReversals (Prune.dropTails (← Agenda.sentences board config))

/-- A search adds these paths one after the other. -/
theorem Board.search_eq (board : Board) (config : Config) :
    board.search config = (do (← board.paths config).foldlM Findings.addPath .empty) := by
  -- The two are one composition, bracketed in two ways.
  unfold search paths
  cases Agenda.sentences board config <;> rfl

/-- The tiles of one path are the end of another that has more. -/
def Phrase.IsEndOf (path other : Phrase) : Prop :=
  -- Only the tiles are compared, in the order in which they are read.
  path.entities <:+ other.entities ∧ path.entities ≠ other.entities

/-- The tiles of one path stand side by side in another, in the opposite order. -/
def Phrase.IsReadBackIn (path other : Phrase) : Prop :=
  -- The other path may go on at either side.
  path.entities.reverse <:+: other.entities

/-- A path is the end of whatever more words in front make of it. -/
theorem Phrase.isEndOf_append (path : Phrase) {front : List PlacedWord} (more : front ≠ []) :
    path.IsEndOf ⟨front ++ path.words⟩ := by
  refine ⟨⟨front.map (·.entity), List.map_append.symm⟩, fun same => ?_⟩
  -- The longer path has more tiles.
  have lengths := congrArg List.length same
  rw [entities, entities, List.length_map, List.length_map, List.length_append] at lengths
  have some := List.length_pos_iff.mpr more
  omega

namespace Sentence

variable {board : Board} {config : Config}

/-- A sentence has a word. -/
theorem IsSentence.ne_nil {words : List PlacedWord}
    (sentence : IsSentence board.Shows config words) : words ≠ [] := by
  -- There is a relation word at least.
  obtain ⟨parse, valid, rfl⟩ := sentence
  simp [Parse.words]

/-- An outermost sentence is the end of no other sentence. -/
theorem IsOutermost.not_isEndOf (single : board.Single) {path other : Phrase}
    (outer : IsOutermost board.Shows config path.words)
    (sentence : IsSentence board.Shows config other.words) : ¬ path.IsEndOf other := by
  -- The longer path would end with this sentence and have words in front of it.
  intro ends
  obtain ⟨⟨front, same⟩, differ⟩ := ends
  have tiles : other.words.map (·.entity) = front ++ path.words.map (·.entity) ++ [] := by
    rw [List.append_nil]
    exact same.symm
  obtain ⟨_, before, split, _⟩ := outer.1.ends single sentence tiles
  rw [split] at sentence
  rw [outer.front_eq_nil single sentence, List.nil_append] at split
  exact differ (by rw [Phrase.entities, Phrase.entities, split])

end Sentence

namespace Prune

open Sentence

variable {board : Board} {config : Config} {found : List Phrase}

/-- A tail is the end of a path that has more. -/
theorem isTailOf_eq_true_iff {path other : Phrase} :
    isTailOf path.entities other.entities = true ↔ path.IsEndOf other := by
  rw [isTailOf_iff, Phrase.IsEndOf]
  refine and_congr_right fun suffix => ?_
  -- An end that is equally long is the whole.
  constructor
  · intro shorter same
    rw [same] at shorter
    exact Nat.lt_irrefl _ shorter
  · intro differ
    exact suffix.length_le.lt_of_ne fun lengths => differ (suffix.eq_of_length lengths)

/-- Of the maximal sentences the outermost ones are the tail of none. -/
theorem mem_dropTails_iff_isOutermost (single : board.Single)
    (maximal : ∀ path, path ∈ found ↔ IsMaximal board.Shows config path.words) {path : Phrase} :
    path ∈ dropTails found ↔ IsOutermost board.Shows config path.words := by
  rw [mem_dropTails_iff fun path member => ((maximal path).mp member).1.ne_nil]
  constructor
  · intro kept
    obtain ⟨member, none⟩ := kept
    refine ⟨(maximal path).mp member, fun subject joint longer => ?_⟩
    -- A longer sentence would be a maximal one with this tail.
    have larger : IsMaximal board.Shows config ([subject, joint] ++ path.words) :=
      ((maximal path).mp member).of_longer single longer
    have tail := isTailOf_eq_true_iff.mpr (path.isEndOf_append (List.cons_ne_nil subject [joint]))
    rw [none _ ((maximal _).mpr larger)] at tail
    cases tail
  · intro outermost
    refine ⟨(maximal path).mpr outermost.1, fun other listed => ?_⟩
    rw [← Bool.not_eq_true, isTailOf_eq_true_iff]
    exact outermost.not_isEndOf single ((maximal other).mp listed).1

/-- A candidate that stands for a sentence starts forward when its words do. -/
theorem Candidate.IsHeaded.forward_eq {candidate : Candidate} (headed : candidate.IsHeaded)
    {parse : Parse} (valid : parse.Valid board.Shows config)
    (words : parse.words = candidate.phrase.words) :
    candidate.forward = parse.heading.readsForward := by
  -- The heading that was found is the direction of the first step of the sentence.
  obtain ⟨heading, found, known⟩ := headed
  rw [valid.heading_eq words.symm, Except.ok.injEq] at found
  rw [known, ← found]
  rfl

/-- A maximal sentence loses to those that begin with it, backwards, and, if the other one does not
go on, only when it is not the one in the forward direction. The order of discovery does not
matter. -/
theorem Candidate.losesTo_iff (single : board.Single) {candidate other : Candidate}
    (headed : candidate.IsHeaded) (headed' : other.IsHeaded)
    (maximal : IsMaximal board.Shows config candidate.phrase.words)
    (sentence : IsSentence board.Shows config other.phrase.words) :
    candidate.losesTo other = true ↔ ∃ rest,
      other.phrase.words = backwards candidate.phrase.words ++ rest ∧
        (rest = [] → ¬ StartsForward candidate.phrase.words) := by
  obtain ⟨parse, valid, words⟩ := maximal.1
  obtain ⟨parse', valid', words'⟩ := sentence
  have forward := headed.forward_eq valid words
  have forward' := headed'.forward_eq valid' words'
  have starts : StartsForward candidate.phrase.words ↔ candidate.forward = true := by
    rw [← words, valid.startsForward_iff, forward]
  -- Of two exact reversals one goes forward.
  have opposite (same : other.phrase.words = backwards candidate.phrase.words) :
      other.forward = !candidate.forward := by
    rw [forward, forward']
    exact valid.heading_backwards single valid' (by rw [words', same, words])
  unfold losesTo
  simp only [Bool.and_eq_true, occursIn_iff]
  constructor
  · -- The other sentence goes back over this one, and nothing stands before a maximal one.
    intro loses
    obtain ⟨⟨front, back, same⟩, ranked⟩ := loses
    obtain ⟨_, rest, split, _⟩ := maximal.back single ⟨parse', valid', words'⟩ same.symm
    refine ⟨rest, split, fun none => ?_⟩
    rw [none, List.append_nil] at split
    have lengths : candidate.phrase.entities.length = other.phrase.entities.length := by
      simp [Phrase.entities, split]
    rw [starts]
    cases ahead : candidate.forward <;> simp_all
  · -- The ranks are equal when nothing follows the reversal, and then the direction decides.
    intro found
    obtain ⟨rest, split, behind⟩ := found
    refine ⟨⟨[], rest.map (·.entity), by simp [Phrase.entities, split]⟩, ?_⟩
    cases rest with
    | nil =>
      have behind := behind rfl
      rw [List.append_nil] at split
      rw [starts, Bool.not_eq_true] at behind
      simp [opposite split, behind]
    | cons word rest =>
      have longer : candidate.phrase.entities.length < other.phrase.entities.length := by
        simp [Phrase.entities, split]
      simp [longer]

/-- The candidates among the outermost sentences of a board. -/
theorem candidates_dropTails_spec (single : board.Single)
    (maximal : ∀ path, path ∈ found ↔ IsMaximal board.Shows config path.words) :
    ∃ field, candidates (dropTails found) = .ok field ∧
      field.map Candidate.phrase = dropTails found ∧
        (∀ candidate ∈ field, candidate.IsHeaded) ∧
          ∀ path, IsOutermost board.Shows config path.words ↔
            ∃ candidate ∈ field, candidate.phrase = path := by
  -- Every path that is left is a sentence, so its heading is found.
  have outermost (path : Phrase) : path ∈ dropTails found ↔ _ :=
    mem_dropTails_iff_isOutermost single maximal
  obtain ⟨field, built, phrases, headed⟩ := candidates_spec fun path member => by
    obtain ⟨parse, valid, words⟩ := ((outermost path).mp member).1.1
    exact ⟨_, valid.heading_eq words.symm⟩
  refine ⟨field, built, phrases, headed, fun path => ?_⟩
  rw [← outermost, ← phrases, List.mem_map]

/-- The sentences that survive both filters are the outermost ones that prevail. -/
theorem dropReversals_dropTails_spec (single : board.Single)
    (maximal : ∀ path, path ∈ found ↔ IsMaximal board.Shows config path.words) :
    ∃ kept, dropReversals (dropTails found) = .ok kept ∧ kept.Sublist (dropTails found) ∧
      ∀ path : Phrase, path ∈ kept ↔ IsOutermost board.Shows config path.words ∧
        Prevails board.Shows config path.words := by
  obtain ⟨field, built, phrases, headed, outermost⟩ := candidates_dropTails_spec single maximal
  have nonempty : ∀ path ∈ dropTails found, path.words ≠ [] := fun path member =>
    ((mem_dropTails_iff_isOutermost single maximal).mp member).1.1.ne_nil
  obtain ⟨kept, dropped, sublist, member⟩ := dropReversals_spec nonempty built phrases
  refine ⟨kept, dropped, sublist, fun path => ?_⟩
  rw [member]
  constructor
  · intro unbeaten
    obtain ⟨candidate, listed, rfl, unbeaten⟩ := unbeaten
    have outer := (outermost candidate.phrase).mpr ⟨candidate, listed, rfl⟩
    refine ⟨outer, fun reversed => ?_⟩
    -- The reversal begins a maximal sentence, which competes and does not win.
    obtain ⟨rest, longer⟩ := reversed.exists_maximal
    obtain ⟨other, listed', same⟩ :=
      (outermost ⟨_⟩).mp (outer.1.isOutermost_back single longer)
    have words : other.phrase.words = backwards candidate.phrase.words ++ rest := by rw [same]
    have loses := Candidate.losesTo_iff single (headed _ listed) (headed _ listed') outer.1
      (words ▸ longer.1)
    rw [unbeaten other listed'] at loses
    by_cases none : rest = []
    · rw [none, List.append_nil] at longer
      refine ⟨longer, ?_⟩
      by_contra behind
      exact absurd (loses.mpr ⟨rest, words, fun _ => behind⟩) Bool.false_ne_true
    · exact absurd (loses.mpr ⟨rest, words, fun no => absurd no none⟩) Bool.false_ne_true
  · intro survives
    obtain ⟨outer, prevails⟩ := survives
    obtain ⟨candidate, listed, rfl⟩ := (outermost path).mp outer
    refine ⟨candidate, listed, rfl, fun other listed' => ?_⟩
    have outer' := (outermost other.phrase).mpr ⟨other, listed', rfl⟩
    rw [← Bool.not_eq_true, Candidate.losesTo_iff single (headed _ listed) (headed _ listed')
      outer.1 outer'.1.1]
    -- Whoever wins would continue the reversal, or go forward as this one does.
    intro loses
    obtain ⟨rest, words, behind⟩ := loses
    have sentence := outer'.1.1
    rw [words] at sentence
    obtain ⟨longest, starts⟩ := prevails (outer.1.1.back single sentence)
    exact behind (longest.rest_eq_nil single sentence) starts

end Prune

namespace Sentence

variable {board : Board} {config : Config}

/-- Every maximal sentence survives, ends a sentence that survives, or is read back in one. -/
theorem IsMaximal.exists_survivor (single : board.Single) {path : Phrase}
    (maximal : IsMaximal board.Shows config path.words) :
    ∃ other : Phrase, (IsOutermost board.Shows config other.words ∧
      Prevails board.Shows config other.words) ∧
        (path = other ∨ path.IsEndOf other ∨ path.IsReadBackIn other) := by
  obtain ⟨front, outer⟩ := maximal.exists_outermost single
  by_cases prevails : Prevails board.Shows config (front ++ path.words)
  · refine ⟨⟨front ++ path.words⟩, ⟨outer, prevails⟩, ?_⟩
    cases front with
    | nil => exact .inl rfl
    | cons word rest => exact .inr (.inl (path.isEndOf_append (List.cons_ne_nil word rest)))
  · -- What the outermost sentence loses to begins with its reversal and prevails itself.
    rw [Prevails, Classical.not_imp] at prevails
    obtain ⟨reversed, beaten⟩ := prevails
    obtain ⟨rest, longer⟩ := reversed.exists_maximal
    refine ⟨⟨backwards (front ++ path.words) ++ rest⟩,
      ⟨outer.1.isOutermost_back single longer, fun again => ?_⟩, .inr (.inr ?_)⟩
    · -- If it can be read backwards, then as the outermost sentence and no more.
      rw [backwards_append, backwards_backwards] at again ⊢
      have none := outer.front_eq_nil single again
      rw [none, List.nil_append] at again ⊢
      rw [backwards_eq_nil_iff] at none
      rw [none, List.append_nil] at longer ⊢
      refine ⟨outer.1, ?_⟩
      -- The two are exact reversals, and the outermost one does not start forward.
      obtain ⟨parse, valid, words⟩ := outer.1.1
      obtain ⟨other, another, words'⟩ := longer.1
      have opposite := valid.heading_backwards single another (by rw [words', words])
      have behind : ¬ StartsForward (front ++ path.words) := fun starts => beaten ⟨longer, starts⟩
      rw [← words, valid.startsForward_iff, Bool.not_eq_true] at behind
      rw [← words', another.startsForward_iff, opposite, behind]
      rfl
    · refine ⟨[], (front.map (·.entity)).reverse ++ rest.map (·.entity), ?_⟩
      simp [Phrase.entities]

/-- A sentence that survives is the end of no other and is read back in none. -/
theorem IsOutermost.not_isReadBackIn (single : board.Single) {path other : Phrase}
    (outer : IsOutermost board.Shows config path.words)
    (prevails : Prevails board.Shows config path.words)
    (outer' : IsOutermost board.Shows config other.words)
    (prevails' : Prevails board.Shows config other.words) : ¬ path.IsReadBackIn other := by
  intro back
  obtain ⟨front, rest, same⟩ := back
  obtain ⟨_, after, words, _⟩ := outer.1.back single outer'.1.1 same.symm
  have sentence := outer'.1.1
  rw [words] at sentence
  obtain ⟨longest, starts⟩ := prevails (outer.1.1.back single sentence)
  -- The other one cannot go on after the reversal, so both go forward, in opposite directions.
  rw [longest.rest_eq_nil single sentence, List.append_nil] at words
  have again : IsSentence board.Shows config (backwards other.words) := by
    rw [words, backwards_backwards]
    exact outer.1.1
  have starts' := (prevails' again).2
  obtain ⟨parse, valid, spelled⟩ := outer.1.1
  obtain ⟨parse', valid', spelled'⟩ := outer'.1.1
  have opposite := valid.heading_backwards single valid' (by rw [spelled', spelled, words])
  rw [← spelled, valid.startsForward_iff] at starts
  rw [← spelled', valid'.startsForward_iff, opposite, starts] at starts'
  cases starts'

/-- Of two exact reversals exactly one starts in a forward direction. -/
theorem IsMaximal.headings_opposite (single : board.Single) {path other : Phrase}
    (maximal : IsMaximal board.Shows config path.words)
    (sentence : IsSentence board.Shows config other.words)
    (same : other.entities = path.entities.reverse) :
    ∃ ahead back, path.heading = .ok (some ahead) ∧ other.heading = .ok (some back) ∧
      ahead.readsForward ≠ back.readsForward := by
  -- The tiles tell that the words are those of the other path backwards.
  have tiles : other.words.map (·.entity) = [] ++ (path.words.map (·.entity)).reverse ++ [] := by
    rw [List.nil_append, List.append_nil]
    exact same
  obtain ⟨_, after, split, none⟩ := maximal.back single sentence tiles
  rw [List.map_eq_nil_iff.mp none, List.append_nil] at split
  obtain ⟨parse, valid, words⟩ := maximal.1
  obtain ⟨parse', valid', words'⟩ := sentence
  have opposite := valid.heading_backwards single valid' (by rw [words', split, words])
  refine ⟨_, _, valid.heading_eq words.symm, valid'.heading_eq words'.symm, ?_⟩
  rw [opposite]
  cases parse.heading.readsForward <;> decide

end Sentence

namespace World

open Sentence

/-- On every world that a host can bring about the two filters lose no sentence and leave none that
is a part or a reversal of another one, and which of two exact reversals is kept does not depend on
the order in which they were discovered. -/
theorem Reachable.pruning_spec {world : World} (reachable : world.Reachable) (config : Config) :
    ∃ found kept, Agenda.sentences world.board config = .ok found ∧
      Prune.dropReversals (Prune.dropTails found) = .ok kept ∧ kept.Sublist found ∧
      (∀ path ∈ found, path ∈ kept ∨ ∃ other ∈ kept, path.IsEndOf other ∨ path.IsReadBackIn other) ∧
      (∀ path ∈ kept, ∀ other ∈ kept, ¬ path.IsEndOf other ∧ ¬ path.IsReadBackIn other) ∧
      (∀ path ∈ found, ∀ other ∈ found, other.entities = path.entities.reverse →
        ∃ ahead back, path.heading = .ok (some ahead) ∧ other.heading = .ok (some back) ∧
          ahead.readsForward ≠ back.readsForward) ∧
      ∃ field, Prune.candidates (Prune.dropTails found) = .ok field ∧
        ∀ a ∈ field, ∀ b ∈ field, ∀ place place',
          Prune.Candidate.losesTo { a with place } { b with place := place' } = a.losesTo b := by
  -- Everything is read off the description of the survivors, and the tie off that of losing.
  have single := reachable.consistent.single_board
  obtain ⟨found, searched, _, maximal⟩ := Agenda.sentences_spec single config
  obtain ⟨kept, dropped, sublist, survives⟩ := Prune.dropReversals_dropTails_spec single maximal
  obtain ⟨field, built, _, headed, outermost⟩ := Prune.candidates_dropTails_spec single maximal
  refine ⟨found, kept, searched, dropped, sublist.trans List.filter_sublist, ?_, ?_, ?_, field,
    built, ?_⟩
  · intro path member
    -- A path that does not survive is within a survivor, one way or the other.
    obtain ⟨other, both, related⟩ := ((maximal path).mp member).exists_survivor single
    rcases related with rfl | related
    · exact .inl ((survives path).mpr both)
    · exact .inr ⟨other, (survives other).mpr both, related⟩
  · intro path member other listed
    -- Survivors neither end nor read back each other.
    obtain ⟨outer, prevails⟩ := (survives path).mp member
    obtain ⟨outer', prevails'⟩ := (survives other).mp listed
    exact ⟨outer.not_isEndOf single outer'.1.1,
      outer.not_isReadBackIn single prevails outer' prevails'⟩
  · intro path member other listed same
    exact ((maximal path).mp member).headings_opposite single ((maximal other).mp listed).1 same
  · intro a one b other place place'
    have outer := (outermost a.phrase).mpr ⟨a, one, rfl⟩
    have outer' := (outermost b.phrase).mpr ⟨b, other, rfl⟩
    rw [Bool.eq_iff_iff, Prune.Candidate.losesTo_iff single (headed a one) (headed b other) outer.1
      outer'.1.1]
    exact Prune.Candidate.losesTo_iff single (headed a one) (headed b other) outer.1 outer'.1.1

/-- Of the three sentences in a row one survives, which the second one ends and the third one reads
backwards. -/
theorem pruning_of_row : ∃ world found kept,
    World.row [.wall, .and, .rock, .is, .goal] = .ok world ∧
      Agenda.sentences world.board .standard = .ok found ∧
      Prune.dropReversals (Prune.dropTails found) = .ok kept ∧
      found.map Phrase.spelling = [[.wall, .and, .rock, .is, .goal], [.rock, .is, .goal],
        [.goal, .is, .rock, .and, .wall]] ∧
      kept.map Phrase.spelling = [[.wall, .and, .rock, .is, .goal]] ∧
      (∀ path ∈ found, path ∈ kept ∨ ∃ other ∈ kept, path.IsEndOf other ∨ path.IsReadBackIn other) ∧
      ∀ path ∈ kept, ∀ other ∈ kept, ¬ path.IsEndOf other ∧ ¬ path.IsReadBackIn other := by
  -- The lists are computed, and how they are related is known from the theorem.
  obtain ⟨world, built⟩ : ∃ world, World.row [.wall, .and, .rock, .is, .goal] = .ok world :=
    ⟨_, rfl⟩
  obtain ⟨found, kept, searched, dropped, _, covered, apart, _⟩ :=
    (Reachable.row built).pruning_spec Config.standard
  have spelled : (do
      let world ← World.row [.wall, .and, .rock, .is, .goal]
      let found ← Agenda.sentences world.board .standard
      let kept ← Prune.dropReversals (Prune.dropTails found)
      return (found.map Phrase.spelling, kept.map Phrase.spelling) : Except Error _) =
        .ok ([[.wall, .and, .rock, .is, .goal], [.rock, .is, .goal],
          [.goal, .is, .rock, .and, .wall]], [[.wall, .and, .rock, .is, .goal]]) := by
    cbv
  rw [built] at spelled
  simp only [searched, dropped, Bind.bind, Except.bind, Pure.pure, Except.pure, Except.ok.injEq,
    Prod.mk.injEq] at spelled
  exact ⟨world, found, kept, built, searched, dropped, spelled.1, spelled.2, covered, apart⟩

end World

end WordTiles
