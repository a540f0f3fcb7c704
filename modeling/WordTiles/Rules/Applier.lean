import WordTiles.Config
import WordTiles.Rules.Outcome
import WordTiles.Rules.Rulebook

/-! The applier of rules: it gives every entity what its category is granted, and finds out which
entities are destroyed and which turn into others. -/

namespace WordTiles

/-- The entity with exactly what its category is granted. Indicators are left alone. -/
def Rulebook.equip (rulebook : Rulebook) (entity : Entity) : Entity :=
  -- What was carried before is replaced as a whole, not added to.
  if entity.isGoverned then
    let grants := rulebook.grants entity.category
    { entity with properties := grants.carriedProperties, abilities := grants.abilities }
  else entity

/-- The removals that a rule of destruction asks for among the entities of one cell, given those
that earlier rules asked for. No entity is destroyed by itself alone. -/
def DestructionRule.strike (rule : DestructionRule) (here : List Entity) (earlier : List Removal) :
    List Removal :=
  -- Whoever is removed already neither destroys nor is destroyed.
  let standing := here.filter fun entity => !earlier.any (·.id == entity.id)
  let destroyers := standing.filter rule.destroys
  -- A victim needs a destroyer other than itself.
  let victims := (standing.filter rule.harms).filter fun victim =>
    destroyers.any (·.id != victim.id)
  -- A destroyer that is destroyed itself is listed once, as a victim.
  let spent := ((destroyers.map (·.id)).filter fun id => !victims.any (·.id == id)).eraseDups
  if victims.isEmpty then []
  else
    victims.map (⟨·.id, rule.cause⟩) ++
      if rule.spendsDestroyers then spent.map (⟨·, .spent⟩) else []

/-- The removals that the rules of destruction ask for in one cell, in the order of the rules, after
those already asked for. -/
def destructionAt (rules : List DestructionRule) (here : List Entity) (earlier : List Removal) :
    List Removal :=
  -- Each rule is told what the rules before it have removed.
  rules.foldl (fun removals rule => removals ++ rule.strike here removals) earlier

/-- The removals that the rules of destruction ask for in a world, cell by cell. -/
def World.destruction (world : World) (rules : List DestructionRule) : List Removal :=
  -- The cells share one list, since no entity stands on two of them.
  world.occupied.foldl
    (fun removals cell =>
      destructionAt rules ((world.occupants cell).filter (·.isGoverned)) removals) []

/-- What an entity turns into for a target: an object of that category, or for `TEXT` the word that
names its own category. Its tint is carried over. -/
def Entity.turnedInto? (entity : Entity) (target : Category) : Option SpawnRequest :=
  -- Only the tint survives; everything else is granted anew to the new category.
  let tint := entity.properties ∩ .colors
  if target = .text then
    (Word.ofCategory? entity.category).map fun word =>
      { SpawnRequest.tile word entity.position with properties := tint }
  else some { SpawnRequest.object target entity.position with properties := tint }

/-- What an entity turns into under a rulebook: one new entity for each target that is not terminal.
A category that is among its own targets stays as it is. -/
def Rulebook.replacementsOf (rulebook : Rulebook) (entity : Entity) : List SpawnRequest :=
  -- Staying what one is counts more than becoming something else.
  let targets := (rulebook.grants entity.category).transforms
  if entity.category ∈ targets then []
  else (targets.toList.filter (!·.isTerminal)).filterMap entity.turnedInto?

/-- The replacements that a rulebook asks for among the entities that are not removed. -/
def World.replacements (world : World) (rulebook : Rulebook) (removals : List Removal) :
    List Replacement :=
  -- Removal comes first: an entity that is removed turns into nothing.
  (world.entities.filter fun entity =>
      entity.isGoverned && !removals.any (·.id == entity.id)).filterMap fun entity =>
    let spawns := rulebook.replacementsOf entity
    if spawns.isEmpty then none else some ⟨entity.id, spawns⟩

/-- An applier of rules. -/
structure RuleApplier where
  /-- The number of updates so far. -/
  updateCount : UInt64
  /-- The time that has passed in all updates. -/
  clock : Duration
  deriving DecidableEq

namespace RuleApplier

/-- An applier that has not been used. -/
def initial : RuleApplier := ⟨0, .zero⟩

/-- What the rules do to a world: the world with every entity equipped, and the outcome that is
still to be carried out. -/
def outcomeOf (world : World) (rulebook : Rulebook) (config : Config) (time : Duration) :
    Outcome × World :=
  let equipped := world.mapEntities rulebook.equip
  -- The count compares whole entities, before and after.
  let altered := world.entities.filter fun entity => rulebook.equip entity != entity
  -- What is destroyed depends on what is granted now.
  let removals := equipped.destruction config.destruction
  let replacements := equipped.replacements rulebook removals
  ({ removals, replacements
     changesWorld := !removals.isEmpty || !replacements.isEmpty
     stats :=
       { equipped := .ofNat altered.length
         cellsSearched := .ofNat equipped.occupied.length
         removals := .ofNat removals.length
         replacements := .ofNat replacements.length }
     time },
    equipped)

/-- Lets time pass and applies a rulebook to a world. -/
def advance (applier : RuleApplier) (world : World) (rulebook : Rulebook) (config : Config)
    (elapsed : Duration) : Except Error (Outcome × RuleApplier × World) := do
  -- The count of updates wraps, and the clock does not.
  let clock ← applier.clock.add elapsed
  let (outcome, world) := outcomeOf world rulebook config clock
  return (outcome, { updateCount := applier.updateCount + 1, clock }, world)

end RuleApplier

end WordTiles
