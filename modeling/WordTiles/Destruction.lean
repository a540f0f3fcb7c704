import WordTiles.Entity

/-! Rules of destruction: which entities destroy which others on their own cell. -/

namespace WordTiles

/-- Why an entity is removed. -/
inductive RemovalCause where
  /-- A hot entity melted it. -/
  | melted
  /-- A sinking entity drowned it. -/
  | drowned
  /-- It was used up in destroying something else. -/
  | spent
  deriving DecidableEq

namespace RemovalCause

/-- Every cause. -/
def all : List RemovalCause := [melted, drowned, spent]

/-- The name of a cause. -/
def name : RemovalCause → String
  | melted => "HeatDestroyed"
  | drowned => "SubmersionDestroyed"
  | spent => "Collateral"

end RemovalCause

/-- A rule of destruction among the entities of one cell. -/
structure DestructionRule where
  /-- An entity with any of these properties destroys. -/
  destroyer : Properties
  /-- An entity with any of these properties is vulnerable; if none is listed, all but words are. -/
  victim : Properties
  /-- An entity with any of these abilities is safe. -/
  immune : Abilities
  /-- The cause given for the removal of a victim. -/
  cause : RemovalCause
  /-- The destroyers are used up along with their victims. -/
  spendsDestroyers : Bool
  deriving DecidableEq

namespace DestructionRule

/-- Hot entities melt what can melt, and stay. -/
def melting : DestructionRule :=
  -- Nothing is immune to heat, and heat is not used up.
  ⟨.hot, .melt, ∅, .melted, false⟩

/-- Sinking entities drown what neither swims nor floats, and go down with it. -/
def drowning : DestructionRule :=
  -- An empty list of victims makes everything but words vulnerable.
  ⟨.sink, ∅, .swim ∪ .float, .drowned, true⟩

/-- The entity can destroy under the rule. -/
def destroys (rule : DestructionRule) (entity : Entity) : Bool :=
  -- Any one of the listed properties is enough.
  entity.properties.intersects rule.destroyer

/-- The entity can be destroyed under the rule: it is vulnerable and not immune. -/
def harms (rule : DestructionRule) (entity : Entity) : Bool :=
  -- Words are spared only by rules that list no victims; immunity counts under every rule.
  let vulnerable :=
    if rule.victim.isEmpty then !entity.bearsWord else entity.properties.intersects rule.victim
  vulnerable && !entity.abilities.intersects rule.immune

end DestructionRule

end WordTiles
