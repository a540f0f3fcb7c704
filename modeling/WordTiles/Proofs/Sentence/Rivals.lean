import WordTiles.Proofs.Hex.Distance
import WordTiles.Proofs.Sentence.Listing
import WordTiles.Proofs.Sentence.Survivors

/-! Both filters as comparisons of every path with every other: the index that they look rivals up
in misses none, whatever the list of paths is. -/

namespace WordTiles

/-- Where no step leaves the range, the directions are tried without failing. -/
theorem Cell.exists_headingTo {a : Cell}
    (inland : ∀ direction, ∃ next, a.neighbor direction = .ok next) (b : Cell) :
    ∃ found, a.headingTo b = .ok found := by
  unfold headingTo
  induction Direction.all with
  | nil => exact ⟨none, rfl⟩
  | cons direction rest ih =>
    obtain ⟨next, stepped⟩ := inland direction
    obtain ⟨found, searched⟩ := ih
    rw [List.findM?, stepped, searched]
    -- Either this direction leads there, or one of the others is looked for.
    cases leads : next == b with
    | true =>
      exact ⟨some direction, by simp [leads, Bind.bind, Except.bind, Pure.pure, Except.pure]⟩
    | false => exact ⟨found, by simp [leads, Bind.bind, Except.bind, Pure.pure, Except.pure]⟩

namespace Prune

open Sentence

/-- One path of a list gives way to another, which contains it backwards: to a longer one, or else
to one that starts forward where it does not, or else, if both or neither do, to an earlier one. -/
def GivesWayTo (place : Nat) (path : Phrase) (rival : Nat) (other : Phrase) : Prop :=
  -- Length decides first, then the start, and the order among equals last.
  path.IsReadBackIn other ∧
    (path.length < other.length ∨
      (StartsForward other.words ∧ ¬ StartsForward path.words) ∨
      ((StartsForward other.words ↔ StartsForward path.words) ∧ rival < place))

/-- No path gives way to itself. -/
theorem not_givesWayTo_self (place : Nat) (path : Phrase) :
    ¬ GivesWayTo place path place path := by
  -- It is neither longer nor earlier than itself, nor does it start otherwise.
  rintro ⟨_, longer | ⟨starts, behind⟩ | ⟨_, earlier⟩⟩
  · exact Nat.lt_irrefl _ longer
  · exact behind starts
  · exact Nat.lt_irrefl _ earlier

/-- A candidate goes forward when its words start so. -/
theorem Candidate.IsHeaded.forward_iff {candidate : Candidate} (headed : candidate.IsHeaded) :
    candidate.forward = true ↔ StartsForward candidate.phrase.words := by
  obtain ⟨heading, found, known⟩ := headed
  rw [known]
  unfold Phrase.heading at found
  split at found
  · rename_i first second rest words
    obtain ⟨leads, misses⟩ := Cell.headingTo_eq_ok found
    rw [words, Option.any_eq_true]
    constructor
    · rintro ⟨direction, rfl, forward⟩
      exact ⟨first, second, rest, direction, rfl, leads direction rfl, forward⟩
    · rintro ⟨_, _, _, direction, same, reached, forward⟩
      rw [List.cons.injEq, List.cons.injEq] at same
      obtain ⟨rfl, rfl, _⟩ := same
      -- Only the direction that was found leads to the second word.
      cases heading with
      | none => exact absurd reached (misses rfl direction)
      | some heading =>
        rw [Cell.direction_unique reached (leads heading rfl)] at forward
        exact ⟨heading, rfl, forward⟩
  · rename_i short
    cases found
    constructor
    · nofun
    · rintro ⟨first, second, rest, _, words, _⟩
      exact absurd words (short first second rest)

/-- The candidates are numbered in their order. -/
theorem place_candidates {paths : List Phrase} {field : List Candidate}
    (built : candidates paths = .ok field) {place : Nat} {candidate : Candidate}
    (stands : field[place]? = some candidate) : candidate.place = place := by
  -- They are numbered as they are listed, and the numbering starts at zero.
  obtain ⟨headings, _, listed⟩ := bind_eq_ok_iff.mp built
  cases listed
  rw [List.getElem?_map, Option.map_eq_some_iff] at stands
  obtain ⟨_, stands, rfl⟩ := stands
  rw [List.getElem?_zipIdx, Option.map_eq_some_iff] at stands
  obtain ⟨_, _, rfl⟩ := stands
  exact Nat.zero_add place

/-- One candidate loses to another exactly if its path gives way to the other's. -/
theorem Candidate.losesTo_iff_givesWayTo {candidate other : Candidate}
    (headed : candidate.IsHeaded) (headed' : other.IsHeaded) :
    candidate.losesTo other = true ↔
      GivesWayTo candidate.place candidate.phrase other.place other.phrase := by
  -- The flags of the candidates tell which of their phrases start forward.
  rw [GivesWayTo, ← headed.forward_iff, ← headed'.forward_iff, losesTo, Phrase.IsReadBackIn,
    Phrase.length, Phrase.length, Phrase.entities, Phrase.entities]
  cases candidate.forward <;> cases other.forward <;> simp [occursIn_iff]

/-- The two filters without their index. Of any list of paths that have words, the first filter
keeps those that are not the proper end of any other, each at every place where it is listed. Where
no step from a word leaves the range, the second filter succeeds and keeps those that give way to no
other. Both keep the order. -/
theorem listedBy_drops {paths : List Phrase} (filled : ∀ path ∈ paths, path.words ≠ []) :
    ListedBy (dropTails paths) (fun place path => paths[place]? = some path ∧
      ∀ (rival : Nat) other, rival ≠ place → paths[rival]? = some other → ¬ path.IsEndOf other) ∧
    ((∀ path ∈ paths, ∀ word ∈ path.words, ∀ direction,
        ∃ next, word.position.neighbor direction = .ok next) →
      ∃ kept, dropReversals paths = .ok kept ∧
        ListedBy kept fun place path => paths[place]? = some path ∧
          ∀ (rival : Nat) other, rival ≠ place → paths[rival]? = some other →
            ¬ GivesWayTo place path rival other) := by
  constructor
  · rw [dropTails_eq filled]
    exact ListedBy.unbeaten (fun _ _ _ _ _ _ => isTailOf_eq_true_iff) fun _ _ ends => ends.2 rfl
  · intro inland
    obtain ⟨field, built, rfl, headed⟩ := candidates_spec fun path member => by
      unfold Phrase.heading
      split
      · rename_i first second rest words
        exact Cell.exists_headingTo (inland path member first (by simp [words])) _
      · exact ⟨none, rfl⟩
    have means (place : Nat) (candidate : Candidate) (rival : Nat) (other : Candidate)
        (stands : field[place]? = some candidate) (there : field[rival]? = some other) :
        candidate.losesTo other = true ↔
          GivesWayTo place candidate.phrase rival other.phrase := by
      rw [Candidate.losesTo_iff_givesWayTo (headed _ (List.mem_of_getElem? stands))
        (headed _ (List.mem_of_getElem? there)), place_candidates built stands,
        place_candidates built there]
    have unbeaten := ListedBy.unbeaten means fun place _ => not_givesWayTo_self place _
    refine ⟨_, dropReversals_eq filled built rfl, (unbeaten.map Candidate.phrase).congr ?_⟩
    -- The paths of the candidates are the list.
    intro place path
    simp only [List.getElem?_map, Option.map_eq_some_iff]
    constructor
    · rintro ⟨candidate, ⟨stands, none⟩, rfl⟩
      refine ⟨⟨candidate, stands, rfl⟩, ?_⟩
      rintro rival _ differs ⟨other, there, rfl⟩
      exact none rival other differs there
    · rintro ⟨⟨candidate, stands, rfl⟩, none⟩
      exact ⟨candidate, ⟨stands, fun rival other differs there =>
        none rival _ differs ⟨other, there, rfl⟩⟩, rfl⟩

/-- A path that reads the same both ways, the same path again, and its end. -/
def palindromes : List Phrase :=
  -- The words before and behind the verb are of one entity, which no world would place so.
  let words : List PlacedWord := [⟨.wall, ⟨0, 0⟩, ⟨1⟩, .subject⟩, ⟨.is, ⟨1, 0⟩, ⟨2⟩, .relation⟩,
    ⟨.wall, ⟨0, 0⟩, ⟨1⟩, .predicate⟩]
  [⟨words⟩, ⟨words⟩, ⟨words.tail⟩]

/-- Of a path that reads the same both ways, is listed twice and is followed by its end, the first
filter drops only the end, and the second one keeps only the earlier. -/
theorem listedBy_drops_palindromes :
    dropTails palindromes = palindromes.take 2 ∧
      dropReversals palindromes = .ok (palindromes.take 1) := by
  have inland : ∀ path ∈ palindromes, ∀ word ∈ path.words, ∀ direction,
      ∃ next, word.position.neighbor direction = .ok next := by
    intro path listed word member direction
    have near : word.position = ⟨0, 0⟩ ∨ word.position = ⟨1, 0⟩ := by
      have all : ∀ path ∈ palindromes, ∀ word ∈ path.words,
          word.position = ⟨0, 0⟩ ∨ word.position = ⟨1, 0⟩ := by decide
      exact all path listed word member
    rcases near with same | same <;> rw [same] <;> cases direction <;> exact ⟨_, rfl⟩
  have filled : ∀ path ∈ palindromes, path.words ≠ [] := by decide
  -- Only the last path is the end of another, and each is read back in the first two.
  have ends : ∀ place rival : Fin palindromes.length,
      palindromes[place].IsEndOf palindromes[rival] ↔ place.val = 2 ∧ rival.val < 2 := by
    simp only [Phrase.IsEndOf]
    decide
  have backwards : ∀ place rival : Fin palindromes.length,
      palindromes[place].IsReadBackIn palindromes[rival] ↔ rival.val < 2 := by
    simp only [Phrase.IsReadBackIn]
    decide
  obtain ⟨tails, reversals⟩ := listedBy_drops filled
  obtain ⟨kept, dropped, keeps⟩ := reversals inland
  have length : palindromes.length = 3 := rfl
  constructor
  · refine tails.unique ((ListedBy.take palindromes 2).congr fun place path =>
      and_congr_right fun stands => ?_)
    obtain ⟨inside, rfl⟩ := List.getElem?_eq_some_iff.mp stands
    constructor
    · intro early rival other _ there tail
      obtain ⟨within, rfl⟩ := List.getElem?_eq_some_iff.mp there
      have last := ((ends ⟨place, inside⟩ ⟨rival, within⟩).mp tail).1
      exact early.ne last
    · intro none
      by_contra late
      have last : place = 2 := by omega
      refine none 0 _ (by omega) rfl ((ends ⟨place, inside⟩ ⟨0, by decide⟩).mpr ⟨last, by decide⟩)
  · rw [dropped]
    refine congrArg _ (keeps.unique ((ListedBy.take palindromes 1).congr fun place path =>
      and_congr_right fun stands => ?_))
    obtain ⟨inside, rfl⟩ := List.getElem?_eq_some_iff.mp stands
    constructor
    · intro first rival other differs there way
      obtain ⟨within, rfl⟩ := List.getElem?_eq_some_iff.mp there
      obtain ⟨back, ranked⟩ := way
      have early : rival < 2 := (backwards ⟨place, inside⟩ ⟨rival, within⟩).mp back
      -- The second path is no longer, starts alike and comes later.
      obtain rfl : place = 0 := by omega
      obtain rfl : rival = 1 := by omega
      simp [palindromes, Phrase.length] at ranked
    · intro none
      by_contra late
      have read := (backwards ⟨place, inside⟩ ⟨0, by decide⟩).mpr (by decide)
      refine none 0 _ (by omega) rfl ⟨read, ?_⟩
      obtain rfl | rfl : place = 1 ∨ place = 2 := by omega
      · exact .inr (.inr ⟨.rfl, Nat.zero_lt_one⟩)
      · exact .inl (Nat.lt_add_one 2)

end Prune

end WordTiles
