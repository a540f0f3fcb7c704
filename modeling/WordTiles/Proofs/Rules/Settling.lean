import Mathlib.Algebra.Module.Submodule.Lattice
import Mathlib.Data.List.Permutation
import WordTiles.Proofs.Rules.Applying
import WordTiles.Proofs.Rules.Rounds

/-! Settling: what a tick that ends by itself leaves behind, and what every round keeps on the
way. -/

namespace WordTiles

namespace Reading

/-- The indicators that are brought in line hide no word, and bring none. -/
theorem board_indicatorMoves {world : World} (plain : world.IsPlain) (phrases : List Phrase)
    (changes : List RuleChange) {ids : List EntityId} {after : World}
    (carried : (world.eraseAll (indicatorMoves world phrases changes).removed).createAll
      (indicatorMoves world phrases changes).added = .ok (ids, after)) :
    after.board = world.board ∧ after.IsPlain := by
  -- Whatever is removed is an indicator, so in a plain world it carries no word.
  have hidden : ∀ id ∈ (indicatorMoves world phrases changes).removed, world.tile? id = none := by
    intro id member
    obtain ⟨entity, leaving, rfl⟩ := List.mem_map.mp member
    obtain ⟨live, leaves⟩ := List.mem_filter.mp leaving
    obtain ⟨indicator, shown, _⟩ := (Option.any_eq_true _ _).mp leaves
    have wordless : entity.word = none :=
      (plain entity live).resolve_right (by simp [shown])
    simp [World.tile?, World.find?_eq_some_iff.mpr ⟨live, rfl⟩, wordless]
  have overlays : ∀ request ∈ (indicatorMoves world phrases changes).added,
      request.word = none := by
    intro request member
    obtain ⟨indicator, _, placed⟩ := List.mem_filterMap.mp member
    obtain ⟨position, _, rfl⟩ := Option.map_eq_some_iff.mp placed
    rfl
  refine ⟨?_, (plain.eraseAll _).createAll (fun request member => .inl (overlays request member))
    carried⟩
  rw [World.board_createAll overlays carried, World.board_eraseAll hidden]

end Reading

namespace Outcome

/-- A host can bring about whatever replacements make of a world. -/
theorem reachable_replaceAll {replacements : List Replacement} {world after : World}
    {ids : List EntityId} (reachable : world.Reachable)
    (replaced : replaceAll world replacements = .ok (ids, after)) : after.Reachable := by
  induction replacements generalizing world ids with
  | nil =>
    cases replaced
    exact reachable
  | cons first rest ih =>
    -- The old entity is erased, then the new ones are created.
    obtain ⟨spawns, created, middle, later, _, made, others, _⟩ := replaceAll_cons_eq_ok replaced
    exact ih ((reachable.erase first.old).createAll made) others

/-- So it can with what outcomes make of a world. -/
theorem reachable_carryOut {outcome : Outcome} {world after : World} {ids : List EntityId}
    (reachable : world.Reachable) (carried : outcome.carryOut world = .ok (ids, after)) :
    after.Reachable :=
  -- Removals come first, and they are erasures.
  reachable_replaceAll (reachable.eraseAll _) carried

/-- In particular, with what an application of rules asks for. -/
theorem reachable_of_applied {applier after : RuleApplier} {world equipped left : World}
    {rulebook : Rulebook} {config : Config} {elapsed : Duration} {outcome : Outcome}
    {ids : List EntityId} (reachable : world.Reachable)
    (applied : applier.advance world rulebook config elapsed = .ok (outcome, after, equipped))
    (carried : outcome.carryOut equipped = .ok (ids, left)) : left.Reachable := by
  -- Equipping moves nobody.
  obtain ⟨rfl, _⟩ := RuleApplier.advance_eq_ok applied
  exact reachable_carryOut (reachable.change (Rulebook.position_equip rulebook)) carried

/-- Plain replacements keep a plain world plain. -/
theorem isPlain_replaceAll {replacements : List Replacement} {world after : World}
    {ids : List EntityId} (plain : world.IsPlain)
    (plains : ∀ replacement ∈ replacements, ∀ request ∈ replacement.spawns, request.IsPlain)
    (replaced : replaceAll world replacements = .ok (ids, after)) : after.IsPlain := by
  induction replacements generalizing world ids with
  | nil =>
    cases replaced
    exact plain
  | cons first rest ih =>
    -- The new entities are among those that the first replacement asks for.
    obtain ⟨spawns, created, middle, later, asked, made, others, _⟩ :=
      replaceAll_cons_eq_ok replaced
    obtain ⟨here, further⟩ := List.forall_mem_cons.mp plains
    have still := (plain.erase first.old).createAll
      (fun request member => here request (asked member)) made
    exact ih still further others

/-- The replacements that rules ask for are plain. -/
theorem isPlain_of_mem_replacements {world : World} {rulebook : Rulebook}
    {removals : List Removal} : ∀ replacement ∈ world.replacements rulebook removals,
      ∀ request ∈ replacement.spawns, request.IsPlain := by
  -- Each replacement carries the requests of one entity, and none of them is an indicator.
  intro replacement member request listed
  obtain ⟨_, _, _, turned⟩ := World.of_mem_spawns member listed
  obtain ⟨_, _, _, _, made⟩ := Rulebook.mem_replacementsOf_iff.mp turned
  exact .inr (Entity.of_turnedInto? made).2.2.1

end Outcome

/-- What a tick that ends by itself leaves behind. -/
structure Engine.Settled (engine : Engine) (world : World) : Prop where
  /-- The world has not changed since it was read. -/
  fresh : engine.reader.isStale = false
  /-- The rules are those that a search of the world finds. -/
  current : ∃ findings, world.search engine.config = .ok findings ∧
    engine.rulebook = .ofPhrases findings.phrases
  /-- Every governed entity carries what its category is granted, no more and no less. -/
  equipped : ∀ entity ∈ world.entities, entity.isGoverned = true →
    entity.properties = (engine.rulebook.grants entity.category).carriedProperties ∧
      entity.abilities = (engine.rulebook.grants entity.category).abilities
  /-- It carries the goal marker exactly when the goal is a target of its category. -/
  marked : ∀ entity ∈ world.entities, entity.isGoverned = true →
    (entity.properties.contains Properties.goal = true ↔
      Category.goal ∈ (engine.rulebook.grants entity.category).transforms)
  /-- No destroyer shares its cell with a victim. -/
  harmless : world.IsHarmless engine.config.destruction
  /-- Nobody is to turn into anything else. -/
  stable : ∀ entity ∈ world.entities, entity.isGoverned = true →
    entity.category ∈ (engine.rulebook.grants entity.category).transforms ∨
      ∀ target ∈ (engine.rulebook.grants entity.category).transforms, target.isTerminal = true

/-- What a round keeps: the settings, a world that a host can bring about, and a plain one. -/
structure Engine.Keeps (engine : Engine) (after : Engine) (left : World) : Prop where
  config : after.config = engine.config
  reachable : left.Reachable
  plain : left.IsPlain

namespace Round

/-- Bringing the indicators in line keeps a world that a host can bring about such a world, a plain
one plain, and its board as it is. -/
theorem Reads.spec {round : Round} {engine : Engine} {world brought : World}
    (reads : round.Reads engine world brought) (reachable : world.Reachable)
    (plain : world.IsPlain) :
    brought.Reachable ∧ brought.IsPlain ∧ brought.board = world.board := by
  -- Indicators bear no words, so that moving them leaves the board alone.
  obtain ⟨_, _, rfl, carried⟩ := reads.moved
  obtain ⟨board, plain⟩ := Reading.board_indicatorMoves plain _ _ carried
  exact ⟨(reachable.eraseAll _).createAll carried, plain, board⟩

/-- Applying the rules keeps what a tick relies on. -/
theorem Applies.keeps {round : Round} {engine : Engine} {brought : World}
    (applies : round.Applies engine brought) (reachable : brought.Reachable)
    (plain : brought.IsPlain) : engine.Keeps round.engine round.world := by
  -- The entities are equipped, then some are erased, and then the others are replaced.
  have reachable := reachable.change (Rulebook.position_equip round.engine.rulebook)
  have plain := plain.mapEntities (Rulebook.word_equip round.engine.rulebook)
    (Rulebook.indicator_equip round.engine.rulebook)
  obtain ⟨ids, carried⟩ := applies.carried
  have left := Outcome.reachable_carryOut reachable carried
  unfold Outcome.carryOut at carried
  rw [applies.replacements] at carried
  have plain := Outcome.isPlain_replaceAll (plain.eraseAll _) Outcome.isPlain_of_mem_replacements
    carried
  exact ⟨applies.config, left, plain⟩

end Round

namespace Engine

/-- The equipped world is settled when its rules are fresh and ask for nothing. -/
theorem settled_of_quiet {engine : Engine} {world : World} (consistent : world.Consistent)
    (fresh : engine.reader.isStale = false)
    (current : world.search engine.config = .ok engine.reader.findings)
    (inStep : engine.reader.InStep)
    (quiet : (world.mapEntities engine.rulebook.equip).destruction engine.config.destruction = [])
    (still : (world.mapEntities engine.rulebook.equip).replacements engine.rulebook [] = []) :
    engine.Settled (world.mapEntities engine.rulebook.equip) := by
  -- Every entity is one that has just been equipped, in its old category.
  have equipped : ∀ entity ∈ (world.mapEntities engine.rulebook.equip).entities,
      entity.isGoverned = true →
        entity.properties = (engine.rulebook.grants entity.category).carriedProperties ∧
          entity.abilities = (engine.rulebook.grants entity.category).abilities := by
    intro entity live governed
    obtain ⟨before, _, rfl⟩ := Rulebook.mem_entities_equip_iff.mp live
    rw [Rulebook.isGoverned_equip] at governed
    have carries := engine.rulebook.equip_of_isGoverned governed
    rw [← engine.rulebook.category_equip before] at carries
    exact carries
  constructor
  · exact fresh
  · refine ⟨engine.reader.findings, ?_, inStep.rulebook⟩
    -- Equipping changes no word, and so the search finds the same.
    rw [World.search, World.board_mapEntities (Rulebook.word_equip engine.rulebook)]
    exact current
  · exact equipped
  · intro entity live governed
    rw [(equipped entity live governed).1, rulebook, inStep.rulebook]
    exact Rulebook.contains_goal_carriedProperties _ _
  · exact (consistent.mapEntities (Rulebook.position_equip engine.rulebook)).isHarmless quiet
  · intro entity live governed
    -- Nobody is asked to turn into anything.
    have nothing := World.replacements_eq_nil_iff.mp still entity live governed
    rw [rulebook, inStep.rulebook] at nothing ⊢
    exact Rulebook.replacementsOf_eq_nil nothing

/-- A round keeps what a tick relies on. -/
theorem round_keeps {engine : Engine} {world : World} {elapsed : Duration} {round : Round}
    (reachable : world.Reachable) (plain : world.IsPlain)
    (ran : engine.round world elapsed = .ok round) : engine.Keeps round.engine round.world := by
  -- The reading comes first, where there is one, and then the application.
  obtain ⟨brought, applies, either⟩ := round_eq_ok ran
  rcases either with ⟨_, reads⟩ | ⟨_, _, rfl⟩
  · obtain ⟨reachable, plain, _⟩ := reads.spec reachable plain
    exact applies.keeps reachable plain
  · exact applies.keeps reachable plain

/-- A round that begins with a reading and changes nothing leaves the world settled. -/
theorem settled_of_round {engine : Engine} {world : World} {elapsed : Duration} {round : Round}
    (reachable : world.Reachable) (plain : world.IsPlain) (stale : engine.reader.isStale = true)
    (ran : engine.round world elapsed = .ok round) (quiet : round.outcome.changesWorld = false) :
    round.engine.Settled round.world := by
  obtain ⟨brought, applies, either⟩ := round_eq_ok ran
  rcases either with ⟨_, reads⟩ | ⟨fresh, _⟩
  · obtain ⟨reachable, _, board⟩ := reads.spec reachable plain
    obtain ⟨removals, replacements, left⟩ := applies.of_quiet quiet
    rw [applies.replacements, removals] at replacements
    rw [applies.removals, ← applies.config] at removals
    rw [left]
    refine settled_of_quiet reachable.consistent (applies.stale.trans quiet) ?_ reads.inStep
      removals replacements
    -- Indicators are no words, so the board is the one that was read.
    rw [World.search, board, applies.config]
    exact reads.searched
  · rw [stale] at fresh
    cases fresh

/-- The last round of a settling run that begins with a reading begins with one as well, in a world
and an engine that the rounds before it have kept fit for it. -/
theorem settle_ends_reading {further : Nat} {engine after : Engine} {world left : World}
    {elapsed : Duration} {record : TickRecord} (reachable : world.Reachable)
    (plain : world.IsPlain) (stale : engine.reader.isStale = true)
    (ran : engine.settle world elapsed further = .ok (record, after, left)) :
    ∃ before around elapsed round, (engine.Keeps before around ∧ before.reader.isStale = true) ∧
      before.round around elapsed = .ok round ∧ round.engine = after ∧ round.world = left ∧
        round.outcome.changesWorld = record.capped := by
  -- A round that changes the world leaves its reader stale, and so the next one reads.
  refine settle_ends ?_ ⟨⟨rfl, reachable, plain⟩, stale⟩ ran
  intro before around elapsed round fit ran changed
  obtain ⟨brought, applies, _⟩ := round_eq_ok ran
  have keeps := round_keeps fit.1.reachable fit.1.plain ran
  exact ⟨⟨keeps.config.trans fit.1.config, keeps.reachable, keeps.plain⟩,
    applies.stale.trans changed⟩

/-- A settling run keeps what a tick relies on, and unless it was capped it leaves the world
settled. -/
theorem settle_spec {further : Nat} {engine after : Engine} {world left : World}
    {elapsed : Duration} {record : TickRecord} (reachable : world.Reachable)
    (plain : world.IsPlain) (stale : engine.reader.isStale = true)
    (ran : engine.settle world elapsed further = .ok (record, after, left)) :
    engine.Keeps after left ∧ (record.capped = false → after.Settled left) := by
  -- The last round is the one that counts, and it starts from what the others have kept.
  obtain ⟨before, around, _, round, ⟨keeps, stale⟩, last, rfl, rfl, capped⟩ :=
    settle_ends_reading reachable plain stale ran
  have keeps' := round_keeps keeps.reachable keeps.plain last
  refine ⟨⟨keeps'.config.trans keeps.config, keeps'.reachable, keeps'.plain⟩, fun uncapped => ?_⟩
  exact settled_of_round keeps.reachable keeps.plain stale last (capped.trans uncapped)

/-- A tick of an engine that has been told of a change, on a world that a host can bring about and
whose entities are plain, leaves the world settled whenever it ends before its cap. -/
theorem tick_settles {engine after : Engine} {world left : World} {elapsed : Duration}
    {record : TickRecord} (reachable : world.Reachable) (plain : world.IsPlain)
    (stale : engine.reader.isStale = true)
    (ran : engine.tick world elapsed = .ok (record, after, left))
    (uncapped : record.capped = false) :
    after.config = engine.config ∧ after.Settled left := by
  -- A tick is a settling run.
  obtain ⟨keeps, settled⟩ := settle_spec reachable plain stale ran
  exact ⟨keeps.config, settled uncapped⟩

/-- An engine with the settings of a plain game that has not read anything. -/
def unread : Engine :=
  -- The standard settings pass their own check by evaluation.
  ⟨.standard, rfl, .initial, .initial⟩

/-- The words of one rule, and an entity that it turns into another. -/
def rockOnRule : List SpawnRequest :=
  -- The rock stands on the word that makes it turn.
  [.tile .rock ⟨0, 0⟩, .tile .is ⟨1, 0⟩, .tile .wall ⟨2, 0⟩, .object .rock ⟨1, 0⟩]

/-- On the world of these requests an engine that has not read anything runs two rounds, and goes by
the rule from then on. -/
theorem exists_tick_rockOnRule : ∃ bare ids world record after left,
    World.empty 3 1 = .ok bare ∧ bare.createAll rockOnRule = .ok (ids, world) ∧
      world.Reachable ∧ world.IsPlain ∧ unread.tick world .zero = .ok (record, after, left) ∧
        record.rounds = 2 ∧ record.capped = false ∧
          Category.wall ∈ (after.rulebook.grants .rock).transforms := by
  -- The tick is evaluated to what its record says.
  have known : (do
      let bare ← World.empty 3 1
      let made ← bare.createAll rockOnRule
      let ran ← unread.tick made.2 .zero
      return (ran.1.rounds, ran.1.capped,
        decide (Category.wall ∈ (ran.2.1.rulebook.grants .rock).transforms)) : Except Error _) =
          .ok (2, false, true) := by
    cbv
  obtain ⟨bare, empty, known⟩ := bind_eq_ok_iff.mp known
  obtain ⟨⟨ids, world⟩, created, known⟩ := bind_eq_ok_iff.mp known
  obtain ⟨⟨record, after, left⟩, ran, known⟩ := bind_eq_ok_iff.mp known
  obtain ⟨rounds, known⟩ := Prod.mk.inj (Except.ok.inj known)
  obtain ⟨uncapped, holds⟩ := Prod.mk.inj known
  have reachable : world.Reachable := (World.Reachable.empty empty).createAll created
  have plains : ∀ request ∈ rockOnRule, request.word = none ∨ request.indicator = none := by
    decide
  exact ⟨bare, ids, world, record, after, left, empty, created, reachable,
    (World.IsPlain.empty empty).createAll plains created, ran, rounds, uncapped,
    of_decide_eq_true holds⟩

/-- A world in which a rock turns into a wall settles in two rounds. -/
theorem tick_settles_rockOnRule : ∃ bare ids world record after left,
    World.empty 3 1 = .ok bare ∧ bare.createAll rockOnRule = .ok (ids, world) ∧
      unread.tick world .zero = .ok (record, after, left) ∧ record.rounds = 2 ∧
        record.capped = false ∧ after.config = unread.config ∧ after.Settled left := by
  -- The run is known, and the theorem says how it ends.
  obtain ⟨bare, ids, world, record, after, left, empty, created, reachable, plain, ran, rounds,
    uncapped, _⟩ := exists_tick_rockOnRule
  obtain ⟨config, settled⟩ := tick_settles reachable plain rfl ran uncapped
  exact ⟨bare, ids, world, record, after, left, empty, created, ran, rounds, uncapped, config,
    settled⟩

end Engine

end WordTiles
