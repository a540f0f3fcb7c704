import WordTiles.Proofs.Rules.Rulebook
import WordTiles.Proofs.Rules.Striking
import WordTiles.Proofs.World.Edits

/-! When rules ask for nothing: no destroyer stands next to a victim, and no category is to turn
into another. -/

namespace WordTiles

/-- Nothing is destroyed in a cell exactly when nothing was before and no rule strikes. -/
theorem destructionAt_eq_nil_iff {rules : List DestructionRule} {here : List Entity}
    {earlier : List Removal} : destructionAt rules here earlier = [] ↔
      earlier = [] ∧ ∀ rule ∈ rules, rule.strike here [] = [] := by
  -- Removals are only ever added, so none at the end means none at any step.
  unfold destructionAt
  induction rules generalizing earlier with
  | nil => simp
  | cons first rest ih =>
    rw [List.foldl_cons, ih, List.append_eq_nil_iff, List.forall_mem_cons, and_assoc]
    refine and_congr_right fun none => ?_
    rw [none]

namespace World

/-- A cell is occupied when a live entity stands on it. -/
theorem mem_occupied_iff {world : World} {cell : Cell} :
    cell ∈ world.occupied ↔ ∃ entity ∈ world.entities, entity.position = cell := by
  -- Sorting the cells and listing each once keeps the members.
  simp [occupied, List.mem_mergeSort, List.mem_eraseDups]

/-- Nothing is destroyed in a world exactly when no rule strikes in an occupied cell. -/
theorem destruction_eq_nil_iff {world : World} {rules : List DestructionRule} :
    world.destruction rules = [] ↔ ∀ cell ∈ world.occupied, ∀ rule ∈ rules,
      rule.strike ((world.occupants cell).filter (·.isGoverned)) [] = [] := by
  -- The same holds from cell to cell, whatever has been removed before.
  unfold destruction
  have general (cells : List Cell) (earlier : List Removal) :
      cells.foldl (fun removals cell =>
        destructionAt rules ((world.occupants cell).filter (·.isGoverned)) removals) earlier = [] ↔
      earlier = [] ∧ ∀ cell ∈ cells, ∀ rule ∈ rules,
        rule.strike ((world.occupants cell).filter (·.isGoverned)) [] = [] := by
    induction cells generalizing earlier with
    | nil => simp
    | cons first rest ih =>
      rw [List.foldl_cons, ih, destructionAt_eq_nil_iff, List.forall_mem_cons, and_assoc]
  rw [general]
  simp

/-- Nobody shares a cell with another that a rule lets it destroy. -/
def IsHarmless (world : World) (rules : List DestructionRule) : Prop :=
  -- Indicators neither destroy nor are destroyed.
  ∀ cell, ∀ destroyer ∈ world.occupants cell, ∀ victim ∈ world.occupants cell,
    destroyer.isGoverned = true → victim.isGoverned = true → destroyer ≠ victim →
      ∀ rule ∈ rules, ¬ (rule.destroys destroyer = true ∧ rule.harms victim = true)

/-- A world in which nothing is destroyed is harmless. -/
theorem Consistent.isHarmless {world : World} (consistent : world.Consistent)
    {rules : List DestructionRule} (quiet : world.destruction rules = []) :
    world.IsHarmless rules := by
  -- The cell is occupied, so every rule was tried there.
  intro cell destroyer one victim other governed governed' differ rule member strikes
  have live := consistent.mem_occupants_iff.mp one
  have occupied : cell ∈ world.occupied := mem_occupied_iff.mpr ⟨destroyer, live⟩
  have same := DestructionRule.strike_eq_nil_iff.mp
    (destruction_eq_nil_iff.mp quiet cell occupied rule member) destroyer
    (List.mem_filter.mpr ⟨one, governed⟩) victim (List.mem_filter.mpr ⟨other, governed'⟩)
    strikes.1 strikes.2
  exact differ (eq_of_id live.1 (consistent.mem_occupants_iff.mp other).1 same)

end World

/-- The entity is governed and makes way for others. -/
def Rulebook.turns (rulebook : Rulebook) (entity : Entity) : Bool :=
  -- An entity whose only targets are terminal makes way for nobody.
  entity.isGoverned && !(rulebook.replacementsOf entity).isEmpty

/-- Whoever is governed and has a replacement makes way. -/
theorem Rulebook.turns_eq_true_iff {rulebook : Rulebook} {entity : Entity} :
    rulebook.turns entity = true ↔
      entity.isGoverned = true ∧ rulebook.replacementsOf entity ≠ [] := by
  -- Having a replacement is having a list of them that is not empty.
  rw [turns, Bool.and_eq_true, Bool.not_eq_true', Bool.eq_false_iff, ne_eq, ne_eq,
    List.isEmpty_iff]

namespace World

variable {world : World} {rulebook : Rulebook} {removals : List Removal}

/-- Those who make way, of all who are not removed, are replaced by what they turn into. -/
theorem replacements_eq (world : World) (rulebook : Rulebook) (removals : List Removal) :
    world.replacements rulebook removals =
      ((standing world.entities removals).filter rulebook.turns).map fun entity =>
        ⟨entity.id, rulebook.replacementsOf entity⟩ := by
  -- Whoever is tested by the one side is tested by the other, in two steps.
  unfold replacements standing
  rw [List.filterMap_filter, ← List.filterMap_eq_map, List.filter_filter, List.filterMap_filter]
  refine List.filterMap_congr fun entity _ => ?_
  unfold Rulebook.turns
  by_cases none : rulebook.replacementsOf entity = [] <;>
    cases entity.isGoverned <;> simp [none]

/-- A replacement is asked for everybody who stands and makes way, and for nobody else. -/
theorem mem_replacements_iff {replacement : Replacement} :
    replacement ∈ world.replacements rulebook removals ↔
      ∃ entity : Entity, entity.Stands world.entities removals ∧ rulebook.turns entity = true ∧
        ⟨entity.id, rulebook.replacementsOf entity⟩ = replacement := by
  -- The entities are filtered first and asked for their replacements afterwards.
  simp only [replacements_eq, List.mem_map, List.mem_filter, mem_standing_iff, and_assoc]

/-- Replacements are asked for governed entities that are not removed. -/
theorem of_mem_replacements {replacement : Replacement}
    (member : replacement ∈ world.replacements rulebook removals) :
    ∃ entity ∈ world.entities, entity.isGoverned = true ∧ entity.id = replacement.old ∧
      replacement.spawns = rulebook.replacementsOf entity ∧ replacement.spawns ≠ [] := by
  -- Whoever makes way was asked, and is governed.
  obtain ⟨entity, stands, turns, rfl⟩ := mem_replacements_iff.mp member
  obtain ⟨governed, some⟩ := Rulebook.turns_eq_true_iff.mp turns
  exact ⟨entity, stands.1, governed, rfl, rfl, some⟩

/-- What they ask for is what these turn into. -/
theorem of_mem_spawns {replacement : Replacement} {request : SpawnRequest}
    (member : replacement ∈ world.replacements rulebook removals)
    (spawned : request ∈ replacement.spawns) :
    ∃ entity ∈ world.entities, entity.id = replacement.old ∧
      request ∈ rulebook.replacementsOf entity := by
  -- The requests of a replacement are those that its old entity yields.
  obtain ⟨entity, live, _, same, spawns, _⟩ := of_mem_replacements member
  exact ⟨entity, live, same, spawns ▸ spawned⟩

/-- Every governed entity that is not removed and turns into something is replaced. -/
theorem exists_mem_replacements {entity : Entity} (live : entity ∈ world.entities)
    (governed : entity.isGoverned = true) (spared : ∀ removal ∈ removals, removal.id ≠ entity.id)
    (some : rulebook.replacementsOf entity ≠ []) :
    ∃ replacement ∈ world.replacements rulebook removals, replacement.old = entity.id := by
  -- An entity whose identifier is in no removal stands.
  have stands : entity.Stands world.entities removals :=
    ⟨live, fun cause removed => spared _ removed rfl⟩
  exact ⟨_, mem_replacements_iff.mpr
    ⟨entity, stands, Rulebook.turns_eq_true_iff.mpr ⟨governed, some⟩, rfl⟩, rfl⟩

/-- Nothing is replaced when nothing is removed exactly when nobody has a replacement. -/
theorem replacements_eq_nil_iff : world.replacements rulebook [] = [] ↔
    ∀ entity ∈ world.entities, entity.isGoverned = true → rulebook.replacementsOf entity = [] := by
  -- A list is empty when it has no member, and the members are known.
  rw [List.eq_nil_iff_forall_not_mem]
  constructor
  · intro nobody entity live governed
    by_contra some
    obtain ⟨replacement, asked, _⟩ := exists_mem_replacements live governed
      (fun _ removed => absurd removed List.not_mem_nil) some
    exact nobody replacement asked
  · intro none replacement asked
    obtain ⟨entity, live, governed, _, spawns, some⟩ := of_mem_replacements asked
    exact some (spawns.trans (none entity live governed))

end World

/-- Only an indicator has nothing to turn into, and that only for a text. -/
theorem Entity.turnedInto?_eq_none {entity : Entity} {target : Category}
    (none : entity.turnedInto? target = none) : entity.category = .indicator := by
  -- Every other category has a noun for its text, and every other target has an object.
  unfold turnedInto? at none
  dsimp only at none
  split at none
  · rw [Option.map_eq_none_iff] at none
    generalize entity.category = category at none ⊢
    cases category <;> first | rfl | cases none
  · cases none

/-- Under the rules of some phrases nobody has a replacement whose category is among its own targets
or has terminal targets only, and nobody else is without one. -/
theorem Rulebook.replacementsOf_eq_nil {phrases : List Phrase} {entity : Entity}
    (none : (ofPhrases phrases).replacementsOf entity = []) :
    entity.category ∈ ((ofPhrases phrases).grants entity.category).transforms ∨
      ∀ target ∈ ((ofPhrases phrases).grants entity.category).transforms,
        target.isTerminal = true := by
  unfold replacementsOf at none
  dsimp only at none
  split at none
  · exact .inl ‹_›
  · refine .inr fun target member => ?_
    by_contra proper
    have kept : target ∈ ((ofPhrases phrases).grants entity.category).transforms.toList.filter
        (!·.isTerminal) := List.mem_filter.mpr ⟨member, by simpa using proper⟩
    -- Whatever cannot turn into a target is an indicator, which has no targets.
    have indicator := Entity.turnedInto?_eq_none (List.filterMap_eq_nil_iff.mp none target kept)
    rw [indicator, grants_indicator] at member
    exact CategorySet.not_mem_empty member

/-- What an entity turns into is no indicator, is of the target category, and stands where the
entity stood. Only a text has a word. -/
theorem Entity.of_turnedInto? {entity : Entity} {target : Category} {request : SpawnRequest}
    (made : entity.turnedInto? target = some request) :
    request.position = entity.position ∧ request.category = target ∧ request.indicator = none ∧
      (target ≠ .text → request.word = none) := by
  -- A target is the text, which takes a word, or it is any other category.
  unfold turnedInto? at made
  dsimp only at made
  split at made
  · rename_i text
    obtain ⟨word, _, rfl⟩ := Option.map_eq_some_iff.mp made
    exact ⟨rfl, text.symm, rfl, fun other => absurd text other⟩
  · cases made
    exact ⟨rfl, rfl, rfl, fun _ => rfl⟩

/-- Each replacement is for one target that is not terminal, of a category that does not keep
itself, and there is one for each target that yields anything. -/
theorem Rulebook.mem_replacementsOf_iff {rulebook : Rulebook} {entity : Entity}
    {request : SpawnRequest} :
    request ∈ rulebook.replacementsOf entity ↔
      entity.category ∉ (rulebook.grants entity.category).transforms ∧
        ∃ target ∈ (rulebook.grants entity.category).transforms, target.isTerminal = false ∧
          entity.turnedInto? target = some request := by
  -- The category is looked for among its own targets first.
  unfold replacementsOf
  dsimp only
  split
  · rename_i own
    exact iff_of_false List.not_mem_nil fun either => either.1 own
  · rename_i leaves
    simp only [List.mem_filterMap, List.mem_filter, Bool.not_eq_true', and_assoc, leaves,
      not_false_eq_true, true_and]
    rfl

namespace Rulebook

/-- Equipping changes what an entity carries and nothing else. -/
@[simp] theorem id_equip (rulebook : Rulebook) (entity : Entity) :
    (rulebook.equip entity).id = entity.id := by
  -- Only properties and abilities are written.
  unfold equip
  split <;> rfl

@[simp] theorem position_equip (rulebook : Rulebook) (entity : Entity) :
    (rulebook.equip entity).position = entity.position := by
  unfold equip
  split <;> rfl

@[simp] theorem category_equip (rulebook : Rulebook) (entity : Entity) :
    (rulebook.equip entity).category = entity.category := by
  unfold equip
  split <;> rfl

@[simp] theorem word_equip (rulebook : Rulebook) (entity : Entity) :
    (rulebook.equip entity).word = entity.word := by
  unfold equip
  split <;> rfl

@[simp] theorem indicator_equip (rulebook : Rulebook) (entity : Entity) :
    (rulebook.equip entity).indicator = entity.indicator := by
  unfold equip
  split <;> rfl

@[simp] theorem bearsWord_equip (rulebook : Rulebook) (entity : Entity) :
    (rulebook.equip entity).bearsWord = entity.bearsWord := by
  -- The word is kept.
  rw [Entity.bearsWord, word_equip, Entity.bearsWord]

@[simp] theorem isGoverned_equip (rulebook : Rulebook) (entity : Entity) :
    (rulebook.equip entity).isGoverned = entity.isGoverned := by
  -- What an indicator shows is kept.
  rw [Entity.isGoverned, indicator_equip, Entity.isGoverned]

/-- An indicator carries what it did. -/
theorem equip_of_exempt {rulebook : Rulebook} {entity : Entity}
    (exempt : entity.isGoverned = false) : rulebook.equip entity = entity := by
  -- The rulebook is not even asked.
  rw [equip, exempt, if_neg Bool.false_ne_true]

/-- Equipping an entity twice is no different from equipping it once. -/
@[simp] theorem equip_equip (rulebook : Rulebook) (entity : Entity) :
    rulebook.equip (rulebook.equip entity) = rulebook.equip entity := by
  -- The second time the grants are those of the same category, and they replace themselves.
  cases governed : entity.isGoverned with
  | false => rw [equip_of_exempt governed, equip_of_exempt governed]
  | true =>
    have none := Entity.isGoverned_iff.mp governed
    simp [equip, Entity.isGoverned, none]

/-- A governed entity carries exactly what its category is granted. -/
theorem equip_of_isGoverned {rulebook : Rulebook} {entity : Entity}
    (governed : entity.isGoverned = true) :
    (rulebook.equip entity).properties = (rulebook.grants entity.category).carriedProperties ∧
      (rulebook.equip entity).abilities = (rulebook.grants entity.category).abilities := by
  -- Whatever it carried before is replaced.
  unfold equip
  rw [if_pos governed]
  exact ⟨rfl, rfl⟩

/-- The entities of an equipped world are those that were there, equipped. -/
theorem mem_entities_equip_iff {rulebook : Rulebook} {world : World} {entity : Entity} :
    entity ∈ (world.mapEntities rulebook.equip).entities ↔
      ∃ before ∈ world.entities, rulebook.equip before = entity := by
  -- Identifiers are kept, so that the entities are those of a plain map.
  rw [World.entities_mapEntities rulebook.id_equip, List.mem_map]

end Rulebook

/-- Equipping leaves everybody live. -/
@[simp] theorem World.ids_equip (world : World) (rulebook : Rulebook) :
    (world.mapEntities rulebook.equip).ids = world.ids := by
  -- Identifiers are kept one by one.
  unfold ids
  rw [entities_mapEntities rulebook.id_equip, List.map_map]
  exact List.map_congr_left fun entity _ => rulebook.id_equip entity

/-- When its entities are equipped, nobody shares a cell with another that a rule lets it
destroy. -/
def World.Calm (world : World) (rulebook : Rulebook) (rules : List DestructionRule) : Prop :=
  -- The grants are looked up in the rulebook, so that the world need not be equipped to ask this.
  ∀ destroyer ∈ world.entities, ∀ victim ∈ world.entities, destroyer.isGoverned = true →
    victim.isGoverned = true → destroyer.position = victim.position → destroyer ≠ victim →
      ∀ rule ∈ rules, ¬ (rule.destroys (rulebook.equip destroyer) = true ∧
        rule.harms (rulebook.equip victim) = true)

/-- Nothing is destroyed in a calm world when its entities have been equipped. -/
theorem World.Calm.destruction_eq_nil {world : World} {rulebook : Rulebook}
    {rules : List DestructionRule} (calm : world.Calm rulebook rules)
    (consistent : world.Consistent) :
    (world.mapEntities rulebook.equip).destruction rules = [] := by
  -- Occupants of one cell of the equipped world stood on one cell before.
  have consistent' := consistent.mapEntities (Rulebook.position_equip rulebook)
  refine destruction_eq_nil_iff.mpr fun cell _ rule listed => ?_
  refine DestructionRule.strike_eq_nil_iff.mpr fun destroyer one victim other destroys harms => ?_
  obtain ⟨one, governed⟩ := List.mem_filter.mp one
  obtain ⟨other, governed'⟩ := List.mem_filter.mp other
  obtain ⟨live, here⟩ := consistent'.mem_occupants_iff.mp one
  obtain ⟨live', here'⟩ := consistent'.mem_occupants_iff.mp other
  obtain ⟨before, stood, rfl⟩ := Rulebook.mem_entities_equip_iff.mp live
  obtain ⟨before', stood', rfl⟩ := Rulebook.mem_entities_equip_iff.mp live'
  rw [Rulebook.isGoverned_equip] at governed governed'
  rw [Rulebook.position_equip] at here here'
  -- Two different ones with such properties would not be calm.
  by_contra differ
  refine calm before stood before' stood' governed governed' (here.trans here'.symm) ?_ rule listed
    ⟨?_, ?_⟩
  · rintro rfl
    exact differ rfl
  · exact destroys
  · exact harms

end WordTiles
