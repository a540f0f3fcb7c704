import WordTiles.Rules.Rulebook

/-! Changes of rules: what each category gained and lost between two rulebooks. -/

namespace WordTiles

/-- The change of one category's grants. -/
structure RuleChange where
  category : Category
  /-- What the category is granted now and was not before. -/
  added : Grants
  /-- What the category was granted before and is not now. -/
  removed : Grants
  deriving DecidableEq

namespace RuleChange

/-- Nothing was gained or lost. -/
def isNone (change : RuleChange) : Bool :=
  -- A change counts as one if either side of it is there.
  change.added.isNone && change.removed.isNone

/-- A transform was gained or lost. -/
def altersTransforms (change : RuleChange) : Bool :=
  -- Properties and abilities do not matter here.
  !change.added.transforms.isEmpty || !change.removed.transforms.isEmpty

/-- An association with the goal was gained or lost. -/
def reachesTerminal (change : RuleChange) : Bool :=
  -- Losing the association concerns the goal as much as gaining it.
  change.added.reachesTerminal || change.removed.reachesTerminal

/-- The category turns into another, or did so before. -/
def mentionsTarget (change : RuleChange) (target : Category) : Bool :=
  -- Both sides count, as for the goal.
  target ∈ change.added.transforms || target ∈ change.removed.transforms

end RuleChange

namespace Rulebook

/-- The changes that lead from one rulebook to another, by category, without those that are none. -/
def changesTo (old new : Rulebook) : List RuleChange :=
  -- Categories are compared whether they have rows or not, so that a missing row is no change from
  -- an empty one.
  (Category.all.map fun category =>
    (⟨category, new.grants category \ old.grants category,
      old.grants category \ new.grants category⟩ : RuleChange)).filter (!·.isNone)

end Rulebook

end WordTiles
