import WordTiles.Proofs.Rules.Listening

/-! Changes as patches: the changes from one rulebook to another are exactly what tells the two
apart, and carrying them out leads from the one to the other. -/

namespace WordTiles

/-- A change is the exact patch from some grants to others: it has something to say, it adds what is
new, it removes what is gone, and so it leads from the ones to the others. -/
structure RuleChange.Patches (change : RuleChange) (before after : Grants) : Prop where
  something : change.added ≠ .none ∨ change.removed ≠ .none
  gained : ∀ grant, change.added.Has grant → ¬before.Has grant ∧ after.Has grant
  lost : ∀ grant, change.removed.Has grant → before.Has grant ∧ ¬after.Has grant
  leads : before \ change.removed ∪ change.added = after

/-- A change says something unless nothing was gained or lost. -/
theorem RuleChange.isNone_eq_false_iff {change : RuleChange} :
    change.isNone = false ↔ change.added ≠ .none ∨ change.removed ≠ .none := by
  -- A change is none if both of its halves are.
  rw [isNone, Bool.and_eq_false_iff, ← Bool.not_eq_true, ← Bool.not_eq_true, Grants.isNone_iff,
    Grants.isNone_iff]

namespace Rulebook

/-- The changes between two rulebooks are patches of their categories. -/
theorem patches_of_mem_changesTo {old new : Rulebook} {change : RuleChange}
    (listed : change ∈ old.changesTo new) :
    change.Patches (old.grants change.category) (new.grants change.category) := by
  -- The halves of a listed change are the two differences of the grants of its category.
  obtain ⟨some, added, removed⟩ := mem_changesTo_iff.mp listed
  refine ⟨RuleChange.isNone_eq_false_iff.mp some, ?_, ?_, ?_⟩
  · intro grant has
    rw [added, Grants.has_diff] at has
    exact has.symm
  · intro grant has
    rw [removed, Grants.has_diff] at has
    exact has
  · rw [added, removed, Grants.diff_union_diff]

/-- The changes from one rulebook to another are an exact patch that works in both directions. They
are listed by category in order; each says what its category gained and lost, and the categories
without one are granted the same by both. The way back has the same changes the other way round, and
there are none exactly if both rulebooks grant the same. To carry them out leads to the grants of
the other rulebook, from which its changes to a third one lead on. -/
theorem changesTo_spec (first second third : Rulebook) :
    ((first.changesTo second).map RuleChange.category).Pairwise (· < ·) ∧
      (∀ change ∈ first.changesTo second,
        change.Patches (first.grants change.category) (second.grants change.category)) ∧
      (∀ category, category ∉ (first.changesTo second).map RuleChange.category →
        first.grants category = second.grants category) ∧
      second.changesTo first = (first.changesTo second).map RuleChange.swap ∧
      (first.changesTo second = [] ↔
        ∀ category, first.grants category = second.grants category) ∧
      ∀ category,
        (first.heed (first.changesTo second)).grants category = second.grants category ∧
          ((first.heed (first.changesTo second)).heed (second.changesTo third)).grants category =
            third.grants category := by
  refine ⟨ascending_changesTo, fun _ => patches_of_mem_changesTo, fun category unlisted => ?_,
    changesTo_swap first second, changesTo_eq_nil_iff, fun category => ?_⟩
  · -- Whoever is granted anything else has a change.
    refine not_not.mp (mt exists_change_of_ne fun ⟨change, listed, same⟩ => unlisted ?_)
    exact same ▸ List.mem_map_of_mem listed
  · have once (category : Category) :
        (first.heed (first.changesTo second)).grants category = second.grants category :=
      grants_heed_changesTo (fun _ => rfl) category
    exact ⟨once category, grants_heed_changesTo once category⟩

/-- A bit without a name is lost with a target, one is gained, and a row without content makes no
change. -/
theorem changesTo_spec_emptyRow : ∃ first second : Rulebook,
    first.row? .rock = some .none ∧ second.row? .rock = none ∧
      first.changesTo second = [⟨.wall, ⟨.stop, ∅, ∅⟩, ⟨.single 20, ∅, .ofList [.rock]⟩⟩,
        ⟨.lava, ⟨∅, .single 7, ∅⟩, .none⟩] ∧
      second.changesTo first = (first.changesTo second).map RuleChange.swap ∧
      ((first.heed (first.changesTo second)).heed (second.changesTo empty)).grants .wall =
        .none := by
  -- The empty row is written by hand, since no statement makes one.
  let first : Rulebook :=
    ⟨[(.wall, ⟨.single 20, ∅, .ofList [.rock]⟩), (.rock, .none)], by decide⟩
  let second := ofStatements [(.lava, .ability (.single 7)), (.wall, .property .stop)]
  obtain ⟨_, _, _, back, _, onward⟩ := changesTo_spec first second empty
  exact ⟨first, second, rfl, by decide, by decide, back, (onward .wall).2⟩

end Rulebook

end WordTiles
