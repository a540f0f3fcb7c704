import WordTiles.Word

/-! Grants: the properties, abilities and transforms of one category. -/

namespace WordTiles

/-- Everything granted to one category. -/
structure Grants where
  properties : Properties
  abilities : Abilities
  /-- The categories that the category turns into, or that it is associated with. -/
  transforms : CategorySet
  deriving DecidableEq

namespace Grants

/-- Nothing is granted. -/
def none : Grants := ⟨∅, ∅, ∅⟩

/-- The category is granted nothing at all. -/
def isNone (grants : Grants) : Bool :=
  -- All three kinds of grants have to be absent.
  grants.properties.isEmpty && grants.abilities.isEmpty && grants.transforms.isEmpty

/-- The grants with what one predicate states. -/
def insert (grants : Grants) : Predicate → Grants
  -- Each kind of predicate touches its own part.
  | .property flags => { grants with properties := grants.properties ∪ flags }
  | .ability flags => { grants with abilities := grants.abilities ∪ flags }
  | .transform target => { grants with transforms := grants.transforms.insert target }

/-- What a list of predicates states. -/
def ofPredicates (predicates : List Predicate) : Grants :=
  -- Unions do not depend on the order, so that the list stands for a set.
  predicates.foldl insert none

/-- The grants of the first that the second lacks. -/
def diff (a b : Grants) : Grants :=
  -- The parts are compared one by one, unnamed flags included.
  ⟨a.properties \ b.properties, a.abilities \ b.abilities, a.transforms \ b.transforms⟩

instance : SDiff Grants := ⟨diff⟩

/-- Some target is terminal: the category is associated with the goal. -/
def reachesTerminal (grants : Grants) : Bool :=
  -- One terminal target is enough, whatever else the category turns into.
  grants.transforms.toList.any Category.isTerminal

/-- The properties that an entity of the category carries: the granted ones, and the goal marker if
the category is associated with the goal. -/
def carriedProperties (grants : Grants) : Properties :=
  -- No word spells the goal marker; it is read off the transforms.
  if grants.reachesTerminal then grants.properties ∪ .goal else grants.properties

end Grants

end WordTiles
