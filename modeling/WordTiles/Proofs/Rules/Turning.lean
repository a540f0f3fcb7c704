import Mathlib.Data.List.Chain
import WordTiles.Proofs.Rules.Destroying
import WordTiles.Proofs.Rules.Resting

/-! Who turns into what: the categories that one category turns into, the chains of such steps, and
the entities that a round leaves. -/

namespace WordTiles

namespace Rulebook

variable {rulebook : Rulebook} {steps : Nat} {category target : Category}

/-- A category turns into each of its targets that is not terminal, unless it is among its targets
itself. -/
structure TurnsInto (rulebook : Rulebook) (category target : Category) : Prop where
  leaves : category ∉ (rulebook.grants category).transforms
  listed : target ∈ (rulebook.grants category).transforms
  proper : target.isTerminal = false

/-- No chain of transforms from a category has more than so many steps. -/
def Within (rulebook : Rulebook) (steps : Nat) (category : Category) : Prop :=
  -- The chain is counted without the category that it begins with.
  ∀ chain, (category :: chain).IsChain rulebook.TurnsInto → chain.length ≤ steps

namespace Within

/-- One step on there is one step less to go. -/
theorem next (within : rulebook.Within (steps + 1) category)
    (turns : rulebook.TurnsInto category target) : rulebook.Within steps target := by
  -- A chain from the target is one from the category when the category is put in front.
  intro chain linked
  have longer := within (target :: chain) (List.isChain_cons_cons.mpr ⟨turns, linked⟩)
  rw [List.length_cons] at longer
  exact Nat.le_of_succ_le_succ longer

/-- A category without a step to go turns into nothing. -/
theorem not_turnsInto (within : rulebook.Within 0 category) :
    ¬ rulebook.TurnsInto category target := by
  -- One step would make a chain that is too long.
  intro turns
  exact Nat.not_succ_le_zero 0 (within [target] (List.isChain_pair.mpr turns))

/-- When every step leads to a lower rank, no chain has more steps than the rank that it begins
with. -/
theorem of_rank (rank : Category → Nat) (falls : ∀ {category target : Category},
    rulebook.TurnsInto category target → rank target < rank category) (category : Category) :
    rulebook.Within (rank category) category := by
  -- Each step of a chain takes at least one off the rank.
  intro chain linked
  induction chain generalizing category with
  | nil => exact Nat.zero_le _
  | cons target rest ih =>
    obtain ⟨turns, linked⟩ := List.isChain_cons_cons.mp linked
    exact Nat.lt_of_le_of_lt (ih target linked) (falls turns)

/-- A category that turns into nothing has no step to go. -/
theorem of_final (final : ∀ target, ¬ rulebook.TurnsInto category target) (steps : Nat) :
    rulebook.Within steps category := by
  -- The only chain is the one without a step.
  intro chain linked
  cases chain with
  | nil => exact Nat.zero_le _
  | cons target rest => exact absurd (List.isChain_cons_cons.mp linked).1 (final target)

end Within

/-- Rules that leave texts alone: nothing is granted to them, and nothing turns into one. -/
structure SparesTexts (rulebook : Rulebook) : Prop where
  silent : rulebook.grants .text = .none
  apart : ∀ category, .text ∉ (rulebook.grants category).transforms

/-- What an entity turns into is an object of a category that its own turns into. -/
theorem SparesTexts.of_mem_replacementsOf (spares : rulebook.SparesTexts) {entity : Entity}
    {request : SpawnRequest} (member : request ∈ rulebook.replacementsOf entity) :
    rulebook.TurnsInto entity.category request.category ∧ request.word = none := by
  -- A target is never the text, and every other one yields an object.
  obtain ⟨leaves, target, listed, proper, made⟩ := Rulebook.mem_replacementsOf_iff.mp member
  obtain ⟨_, category, _, wordless⟩ := Entity.of_turnedInto? made
  refine ⟨category ▸ ⟨leaves, listed, proper⟩, wordless fun text => ?_⟩
  exact spares.apart entity.category (text ▸ listed)

/-- An entity that turns into nothing has a category that turns into nothing. -/
theorem SparesTexts.not_turnsInto (spares : rulebook.SparesTexts) {entity : Entity}
    (none : rulebook.replacementsOf entity = []) :
    ¬ rulebook.TurnsInto entity.category target := by
  intro turns
  unfold replacementsOf at none
  dsimp only at none
  rw [if_neg turns.leaves] at none
  have kept : target ∈ (rulebook.grants entity.category).transforms.toList.filter
      (!·.isTerminal) := List.mem_filter.mpr ⟨turns.listed, by rw [turns.proper]; rfl⟩
  -- For every target but a text there is an object.
  have made := List.filterMap_eq_nil_iff.mp none target kept
  unfold Entity.turnedInto? at made
  dsimp only at made
  split at made
  · rename_i text
    exact spares.apart entity.category (text ▸ turns.listed)
  · cases made

/-- A text carries nothing when it has been equipped, so that no rule destroys it. -/
theorem SparesTexts.not_struck (spares : rulebook.SparesTexts) {entity : Entity}
    (text : entity.category = .text) (governed : entity.isGoverned = true)
    (bears : entity.bearsWord = true) (rule : DestructionRule) :
    ¬ (rule.harms (rulebook.equip entity) = true ∨
      rule.destroys (rulebook.equip entity) = true) := by
  -- Without properties it destroys nothing and has none that is listed, and its word protects it
  -- otherwise.
  obtain ⟨properties, _⟩ := rulebook.equip_of_isGoverned governed
  rw [text, spares.silent] at properties
  have bare : (rulebook.equip entity).properties = ∅ := properties
  have untouched (flags : Properties) : (∅ : Properties).intersects flags = false := by
    rw [← Bool.not_eq_true, Flags.intersects_iff]
    simp
  have spelled : (rulebook.equip entity).bearsWord = true := by
    rw [bearsWord_equip]
    exact bears
  unfold DestructionRule.harms DestructionRule.destroys
  rw [bare, untouched, untouched, spelled]
  simp

end Rulebook

/-- Every word is on a text, and no word is an indicator. -/
def World.WordsOnTexts (world : World) : Prop :=
  -- An object of the category `TEXT` need not bear a word.
  ∀ entity ∈ world.entities, entity.bearsWord = true →
    entity.category = .text ∧ entity.isGoverned = true

/-- Such a world is plain. -/
theorem World.WordsOnTexts.isPlain {world : World} (words : world.WordsOnTexts) :
    world.IsPlain := by
  -- Whoever bears a word is governed, and so shows no transform.
  intro entity live
  cases spelled : entity.word with
  | none => exact .inl rfl
  | some word =>
    have bears : entity.bearsWord = true := by rw [Entity.bearsWord, spelled]; rfl
    exact .inr (Entity.isGoverned_iff.mp (words entity live bears).2)

/-- Words can be created on texts. -/
theorem World.WordsOnTexts.createAll {world after : World} (words : world.WordsOnTexts)
    {requests : List SpawnRequest} {ids : List EntityId}
    (asked : ∀ request ∈ requests, request.word.isSome = true →
      request.category = .text ∧ request.indicator = none)
    (created : world.createAll requests = .ok (ids, after)) : after.WordsOnTexts := by
  -- The new entities are what was asked for.
  obtain ⟨_, added, entities, requested, _⟩ := createAll_eq_ok created
  intro entity live bears
  rw [entities, List.mem_append] at live
  rcases live with stays | new
  · exact words entity stays bears
  · obtain ⟨text, governed⟩ := asked entity.toRequest (requested ▸ List.mem_map_of_mem new) bears
    exact ⟨text, Entity.isGoverned_iff.mpr governed⟩

namespace Round

variable {round : Round} {engine : Engine} {world brought : World}

/-- Reading the words leaves the governed entities as they are. -/
theorem Reads.mem_iff_of_isGoverned (reads : round.Reads engine world brought) {entity : Entity}
    (governed : entity.isGoverned = true) :
    entity ∈ brought.entities ↔ entity ∈ world.entities := by
  -- Only indicators are moved.
  obtain ⟨_, _, rfl, carried⟩ := reads.moved
  exact World.mem_iff_of_isGoverned carried governed

/-- Whoever is there after a round was there before, equipped and neither removed nor replaced, or
is what a governed entity turns into. -/
theorem Applies.of_mem (applies : round.Applies engine brought) {entity : Entity}
    (live : entity ∈ round.world.entities) :
    (∃ before ∈ brought.entities, entity = round.engine.rulebook.equip before ∧
        (∀ removal ∈ round.outcome.removals, removal.id ≠ entity.id) ∧
          ∀ replacement ∈ round.outcome.replacements, replacement.old ≠ entity.id) ∨
      ∃ before ∈ brought.entities, before.isGoverned = true ∧ entity.toRequest ∈
        round.engine.rulebook.replacementsOf (round.engine.rulebook.equip before) := by
  -- Replacing, erasing and equipping are undone one after the other.
  obtain ⟨ids, carried⟩ := applies.carried
  rcases Outcome.of_mem_replaceAll carried live with ⟨known, kept⟩ | ⟨replacement, listed, new⟩
  · obtain ⟨known, spared⟩ := World.mem_entities_eraseAll_iff.mp known
    obtain ⟨before, stood, rfl⟩ := Rulebook.mem_entities_equip_iff.mp known
    refine .inl ⟨before, stood, rfl, fun removal member same => ?_,
      fun replacement member same => ?_⟩
    · exact spared (List.mem_map.mpr ⟨removal, member, same⟩)
    · exact kept replacement member same.symm
  · rw [applies.replacements] at listed
    obtain ⟨equipped, known, governed, _, spawns, _⟩ := World.of_mem_replacements listed
    obtain ⟨before, stood, rfl⟩ := Rulebook.mem_entities_equip_iff.mp known
    rw [Rulebook.isGoverned_equip] at governed
    exact .inr ⟨before, stood, governed, spawns ▸ new⟩

/-- Under rules that leave texts alone nobody with a word is removed. -/
theorem Applies.word_of_removed (applies : round.Applies engine brought)
    (spares : round.engine.rulebook.SparesTexts) (words : brought.WordsOnTexts) :
    ∀ removal ∈ round.outcome.removals,
      ∀ entity ∈ (brought.mapEntities round.engine.rulebook.equip).entities,
        entity.id = removal.id → entity.word = none := by
  -- A word that is removed would stand on a text, which no rule harms or lets destroy.
  intro removal member entity live same
  rw [applies.removals] at member
  obtain ⟨rule, _, other, known, governed, named, struck⟩ :=
    World.exists_of_mem_destruction member
  rw [World.eq_of_id live known (same.trans named.symm)]
  obtain ⟨before, stood, rfl⟩ := Rulebook.mem_entities_equip_iff.mp known
  rw [Rulebook.word_equip]
  by_contra spelled
  have bears : before.bearsWord = true := Option.isSome_iff_ne_none.mpr spelled
  obtain ⟨text, governed⟩ := words before stood bears
  exact spares.not_struck text governed bears rule struck

/-- Nor is anybody with a word replaced. -/
theorem Applies.word_of_replaced (applies : round.Applies engine brought)
    (spares : round.engine.rulebook.SparesTexts) (words : brought.WordsOnTexts) :
    ∀ replacement ∈ round.outcome.replacements,
      ∀ entity ∈ (brought.mapEntities round.engine.rulebook.equip).entities,
        entity.id = replacement.old → entity.word = none := by
  intro replacement member entity live same
  rw [applies.replacements] at member
  obtain ⟨other, known, _, named, spawns, some⟩ := World.of_mem_replacements member
  rw [World.eq_of_id live known (same.trans named.symm)]
  obtain ⟨request, asked⟩ := List.exists_mem_of_ne_nil _ some
  rw [spawns] at asked
  obtain ⟨turns, _⟩ := spares.of_mem_replacementsOf asked
  obtain ⟨before, stood, rfl⟩ := Rulebook.mem_entities_equip_iff.mp known
  rw [Rulebook.category_equip] at turns
  rw [Rulebook.word_equip]
  by_contra spelled
  have bears : before.bearsWord = true := Option.isSome_iff_ne_none.mpr spelled
  -- A text has no targets.
  have listed := turns.listed
  rw [(words before stood bears).1, spares.silent] at listed
  exact CategorySet.not_mem_empty listed

/-- A round whose rules leave texts alone leaves the words alone. -/
theorem Applies.board_eq (applies : round.Applies engine brought)
    (spares : round.engine.rulebook.SparesTexts) (words : brought.WordsOnTexts) :
    round.world.board = brought.board ∧ round.world.WordsOnTexts := by
  -- Everybody who goes is without a word, and so is everybody who comes.
  obtain ⟨ids, carried⟩ := applies.carried
  have removed := applies.word_of_removed spares words
  have replaced := applies.word_of_replaced spares words
  constructor
  · -- The board stays as it is through all three steps.
    unfold Outcome.carryOut at carried
    rw [Outcome.board_replaceAll ?_ ?_ carried, World.board_eraseAll ?_,
      World.board_mapEntities (Rulebook.word_equip _)]
    · intro id gone
      obtain ⟨removal, member, rfl⟩ := List.mem_map.mp gone
      exact World.tile?_eq_none (removed removal member)
    · intro replacement member entity live
      exact replaced replacement member entity (World.mem_entities_eraseAll_iff.mp live).1
    · intro replacement member request asked
      rw [applies.replacements] at member
      obtain ⟨_, _, _, turned⟩ := World.of_mem_spawns member asked
      exact (spares.of_mem_replacementsOf turned).2
  · intro entity live bears
    -- Whoever bears a word afterwards has borne it before.
    rcases applies.of_mem live with ⟨before, stood, rfl, _⟩ | ⟨before, _, _, new⟩
    · rw [Rulebook.bearsWord_equip] at bears
      rw [Rulebook.category_equip, Rulebook.isGoverned_equip]
      exact words before stood bears
    · have wordless : entity.word = none := (spares.of_mem_replacementsOf new).2
      rw [Entity.bearsWord, wordless] at bears
      cases bears

end Round

end WordTiles
