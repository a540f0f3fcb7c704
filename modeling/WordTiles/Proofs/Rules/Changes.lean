import Mathlib.Data.List.Nodup
import WordTiles.Proofs.Rules.Rulebook
import WordTiles.Rules.Reading

/-! Which transforms are gained and lost when one rulebook takes the place of another. -/

namespace WordTiles

/-- Where nothing is gained or lost the grants are the same. -/
theorem Grants.eq_of_isNone {old new : Grants} (gained : (new \ old).isNone = true)
    (lost : (old \ new).isNone = true) : old = new := by
  -- A single grant is in both grants or in neither.
  refine ext_has fun grant => ?_
  have absent : ¬(new \ old).Has grant := isNone_iff.mp gained ▸ not_has_none
  have vanished : ¬(old \ new).Has grant := isNone_iff.mp lost ▸ not_has_none
  rw [has_diff] at absent vanished
  tauto

/-- The change on the way back: what was gained is lost, and what was lost is gained. -/
def RuleChange.swap (change : RuleChange) : RuleChange :=
  -- The category stays.
  ⟨change.category, change.removed, change.added⟩

namespace Rulebook

variable {old new : Rulebook}

/-- A change is what its category is granted in the one rulebook only, if that is anything. -/
theorem mem_changesTo_iff {change : RuleChange} :
    change ∈ old.changesTo new ↔ change.isNone = false ∧
      change.added = new.grants change.category \ old.grants change.category ∧
        change.removed = old.grants change.category \ new.grants change.category := by
  -- Every category is tried, and the changes that are none are dropped.
  unfold changesTo
  rw [List.mem_filter, List.mem_map, and_comm, Bool.not_eq_true']
  refine and_congr_right fun _ => ⟨?_, ?_⟩
  · rintro ⟨category, _, rfl⟩
    exact ⟨rfl, rfl⟩
  · rintro ⟨added, removed⟩
    refine ⟨change.category, Category.mem_all _, ?_⟩
    rw [← added, ← removed]

/-- A category that is granted anything else than before has a change. -/
theorem exists_change_of_ne {category : Category}
    (differ : old.grants category ≠ new.grants category) :
    ∃ change ∈ old.changesTo new, change.category = category := by
  -- The change of the category would be dropped only if the grants were the same.
  refine ⟨⟨category, new.grants category \ old.grants category,
    old.grants category \ new.grants category⟩, mem_changesTo_iff.mpr ⟨?_, rfl, rfl⟩, rfl⟩
  refine eq_false_of_ne_true fun none => differ ?_
  obtain ⟨gained, lost⟩ := Bool.and_eq_true_iff.mp none
  exact Grants.eq_of_isNone gained lost

/-- Nothing changes between rulebooks exactly if they grant the same. -/
theorem changesTo_eq_nil_iff :
    old.changesTo new = [] ↔ ∀ category, old.grants category = new.grants category := by
  -- A category with other grants would have a change, and nothing else is one.
  constructor
  · intro nothing category
    apply Classical.byContradiction
    intro differ
    obtain ⟨change, listed, _⟩ := exists_change_of_ne differ
    rw [nothing] at listed
    cases listed
  · intro same
    refine List.eq_nil_iff_forall_not_mem.mpr fun change listed => ?_
    obtain ⟨some, added, removed⟩ := mem_changesTo_iff.mp listed
    have none (grants : Grants) : (grants \ grants).isNone = true :=
      Grants.isNone_iff.mpr (Grants.ext_has fun grant => by simp)
    rw [RuleChange.isNone, added, removed, same, none] at some
    cases some

/-- Nothing changes from a rulebook to itself. -/
theorem changesTo_self (rulebook : Rulebook) : rulebook.changesTo rulebook = [] :=
  -- Every category is granted what it is granted.
  changesTo_eq_nil_iff.mpr fun _ => rfl

/-- The way back has the same changes the other way round. -/
theorem changesTo_swap (old new : Rulebook) :
    new.changesTo old = (old.changesTo new).map RuleChange.swap := by
  unfold changesTo
  rw [List.filter_map, List.filter_map, List.map_map]
  -- A change is none exactly if it is none the other way round.
  refine congrArg (List.map _) (List.filter_congr fun category _ => ?_)
  simp only [Function.comp_apply, RuleChange.isNone, Bool.and_comm]

/-- Changes are listed by category, in order. -/
theorem ascending_changesTo :
    ((old.changesTo new).map RuleChange.category).Pairwise (· < ·) := by
  -- The categories are tried in order, and dropping some keeps it.
  unfold changesTo
  rw [List.filter_map, List.map_map]
  exact List.pairwise_map.mpr (Category.pairwise_all.filter _)

/-- No category has two changes. -/
theorem pairwise_changesTo : (old.changesTo new).Pairwise fun a b => a.category ≠ b.category :=
  -- Ascending categories are distinct.
  List.pairwise_map.mp (Category.nodup_of_pairwise ascending_changesTo)

/-- A transform is gained when it holds now and did not hold before. -/
theorem mem_gained_iff {indicator : Indicator} :
    indicator ∈ RuleChange.gained (old.changesTo new) ↔
      indicator.target ∈ (new.grants indicator.subject).transforms ∧
        indicator.target ∉ (old.grants indicator.subject).transforms := by
  rw [← CategorySet.mem_diff]
  unfold RuleChange.gained
  rw [List.mem_flatMap]
  constructor
  · rintro ⟨change, listed, member⟩
    obtain ⟨target, within, rfl⟩ := List.mem_map.mp member
    rw [(mem_changesTo_iff.mp listed).2.1] at within
    exact within
  · -- A change with a new target is not none, so it is listed.
    intro within
    refine ⟨⟨indicator.subject, new.grants indicator.subject \ old.grants indicator.subject,
      old.grants indicator.subject \ new.grants indicator.subject⟩, ?_, ?_⟩
    · refine mem_changesTo_iff.mpr ⟨?_, rfl, rfl⟩
      rw [RuleChange.isNone, Grants.isNone, Bool.and_eq_false_iff, Bool.and_eq_false_iff]
      refine .inl (.inr (eq_false_of_ne_true fun none => ?_))
      rw [CategorySet.isEmpty_iff] at none
      have absent : indicator.target ∈ (∅ : CategorySet) := none ▸ within
      exact CategorySet.not_mem_empty absent
    · exact List.mem_map.mpr ⟨indicator.target, within, rfl⟩

/-- What is lost from one rulebook to another is gained on the way back. -/
theorem mem_lost_iff {indicator : Indicator} :
    indicator ∈ RuleChange.lost (old.changesTo new) ↔
      indicator.target ∈ (old.grants indicator.subject).transforms ∧
        indicator.target ∉ (new.grants indicator.subject).transforms := by
  -- Exchanging the rulebooks swaps every change.
  rw [← mem_gained_iff, changesTo_swap old new]
  unfold RuleChange.lost RuleChange.gained
  rw [List.flatMap_map]
  rfl

/-- No transform is gained twice. -/
theorem nodup_gained : (RuleChange.gained (old.changesTo new)).Nodup := by
  -- Each category has one change, and each set of targets lists its members once.
  refine List.nodup_flatMap.mpr ⟨fun change _ => ?_, pairwise_changesTo.imp ?_⟩
  · have once := Category.nodup_of_pairwise change.added.transforms.ascending
    exact once.map fun a b same => (Indicator.mk.inj same).2
  · intro a b differ indicator one other
    obtain ⟨_, _, rfl⟩ := List.mem_map.mp one
    obtain ⟨_, _, same⟩ := List.mem_map.mp other
    exact differ (Indicator.mk.inj same).1.symm

end Rulebook

end WordTiles
