import WordTiles.Proofs.Rules.Accounting

/-! What carrying out an outcome makes of a world: one simultaneous substitution, in which every
entity that is not removed becomes what the rules make of it alone, and nobody who is new takes
part. -/

namespace WordTiles

/-- What an entity can turn into for a target: an object of that category or, if the target is a
text, the word that names the category of the entity. It has the place and the tint of the
entity. -/
inductive Entity.Yields (entity : Entity) : Category → SpawnRequest → Prop where
  | object {target : Category} (proper : target ≠ .text) :
      entity.Yields target ⟨entity.position, target, none, none, entity.properties ∩ .colors⟩
  | word {word : Word} (names : word.category? = some entity.category) :
      entity.Yields .text ⟨entity.position, .text, some word, none, entity.properties ∩ .colors⟩

namespace Rulebook

/-- An entity stays as it is if it is an indicator, if its category is among its own targets, or if
its targets yield nothing, terminal ones aside. -/
def Keeps (rulebook : Rulebook) (entity : Entity) : Prop :=
  -- None of the three looks at another entity.
  entity.isGoverned = false ∨ entity.category ∈ (rulebook.grants entity.category).transforms ∨
    ∀ target ∈ (rulebook.grants entity.category).transforms, target.isTerminal = false →
      ∀ request, ¬ entity.Yields target request

/-- What a rulebook makes of an entity, whoever else there is. An entity that does not stay as it is
makes way for all that its targets yield, in the order of categories, terminal ones aside. -/
inductive Makes (rulebook : Rulebook) (entity : Entity) : List SpawnRequest → Prop where
  | itself (stays : rulebook.Keeps entity) : rulebook.Makes entity [entity.toRequest]
  | others {requests : List SpawnRequest} (leaves : ¬ rulebook.Keeps entity)
      (ordered : requests.Pairwise (·.category < ·.category))
      (each : ∀ request, request ∈ requests ↔
        ∃ target ∈ (rulebook.grants entity.category).transforms, target.isTerminal = false ∧
          entity.Yields target request) :
      rulebook.Makes entity requests

end Rulebook

/-- Carrying out an outcome is one simultaneous substitution: what is left is what the rulebook
makes of each entity that is not removed, equipped and on its own. Whoever stays as it is stays
under its identifier, and nobody else does. Indicators are not touched. Those who come take the next
identifiers in order, and are listed. When the outcome is carried out again, nobody goes or
comes. -/
structure Outcome.Substitutes (outcome : Outcome) (rulebook : Rulebook) (world : World)
    (ids : List EntityId) (left : World) : Prop where
  shares : ∃ share : Entity → List SpawnRequest,
    (∀ entity, rulebook.Makes (rulebook.equip entity) (share entity)) ∧
      (left.entities.map Entity.toRequest).Perm
        ((standing world.entities outcome.removals).flatMap share)
  kept : ∀ entity ∈ standing world.entities outcome.removals,
    rulebook.Keeps (rulebook.equip entity) → rulebook.equip entity ∈ left.entities
  gone : ∀ entity ∈ world.entities, entity.id ∈ left.ids →
    entity ∈ standing world.entities outcome.removals ∧ rulebook.Keeps (rulebook.equip entity)
  untouched : left.entities.filter (!·.isGoverned) = world.entities.filter (!·.isGoverned)
  named : ids = left.ids.filter (!world.ids.contains ·)
  numbered : ids.map (·.val.toNat) = List.range' world.nextId.toNat ids.length
  again : outcome.carryOut left = .ok ([], left)

/-- For a target an entity turns into what it yields, and into nothing else. -/
theorem Entity.turnedInto?_eq_some_iff {entity : Entity} {target : Category}
    {request : SpawnRequest} :
    entity.turnedInto? target = some request ↔ entity.Yields target request := by
  -- A text needs a noun for the category, and any other target is an object as it stands.
  unfold turnedInto?
  dsimp only
  split
  · rename_i text
    subst text
    rw [Option.map_eq_some_iff]
    constructor
    · rintro ⟨word, named, rfl⟩
      exact .word (Word.category?_eq_some_iff.mpr named)
    · intro yields
      -- A text is never yielded as an object.
      cases yields with
      | object proper => exact absurd rfl proper
      | word names => exact ⟨_, Word.category?_eq_some_iff.mp names, rfl⟩
  · rename_i proper
    constructor
    · intro made
      cases made
      exact .object proper
    · intro yields
      cases yields with
      | object => rfl
      | word => exact absurd rfl proper

namespace Rulebook

variable {rulebook : Rulebook} {entity : Entity}

/-- The entity itself, or those it makes way for. -/
def shareOf (rulebook : Rulebook) (entity : Entity) : List SpawnRequest :=
  -- This computes what the relation above describes.
  if rulebook.turns entity then rulebook.replacementsOf entity else [entity.toRequest]

/-- An entity of a category that is not among its own targets turns into what these yield. -/
theorem mem_replacementsOf_iff_yields {request : SpawnRequest} :
    request ∈ rulebook.replacementsOf entity ↔
      entity.category ∉ (rulebook.grants entity.category).transforms ∧
        ∃ target ∈ (rulebook.grants entity.category).transforms, target.isTerminal = false ∧
          entity.Yields target request := by
  -- A request that is made is one that the target yields.
  simp only [mem_replacementsOf_iff, Entity.turnedInto?_eq_some_iff]

/-- What an entity turns into is listed in the order of categories. -/
theorem pairwise_replacementsOf :
    (rulebook.replacementsOf entity).Pairwise (·.category < ·.category) := by
  -- Targets ascend, and each of them gives its own category to what it yields.
  unfold replacementsOf
  dsimp only
  split
  · exact .nil
  · refine List.Pairwise.filterMap _ ?_
      ((rulebook.grants entity.category).transforms.ascending.filter _)
    intro a b less one left other right
    rw [(Entity.of_turnedInto? left).2.1, (Entity.of_turnedInto? right).2.1]
    exact less

/-- Whoever does not make way stays as it is. -/
theorem turns_eq_false_iff : rulebook.turns entity = false ↔ rulebook.Keeps entity := by
  -- There is nothing to turn into if the category keeps itself, and otherwise if no target yields.
  unfold turns Keeps
  rw [Bool.and_eq_false_iff, Bool.not_eq_false', List.isEmpty_iff,
    List.eq_nil_iff_forall_not_mem]
  simp only [mem_replacementsOf_iff_yields]
  refine or_congr_right ⟨fun none => ?_, ?_⟩
  · by_cases own : entity.category ∈ (rulebook.grants entity.category).transforms
    · exact .inl own
    · exact .inr fun target listed proper request yields =>
        none request ⟨own, target, listed, proper, yields⟩
  · rintro (own | none) request ⟨leaves, target, listed, proper, yields⟩
    · exact leaves own
    · exact none target listed proper request yields

/-- The share of an entity is what the rulebook makes of it. -/
theorem makes_shareOf (rulebook : Rulebook) (entity : Entity) :
    rulebook.Makes entity (rulebook.shareOf entity) := by
  unfold shareOf
  cases turns : rulebook.turns entity with
  | false => exact .itself (turns_eq_false_iff.mp turns)
  | true =>
    have leaves : ¬ rulebook.Keeps entity := by
      rw [← turns_eq_false_iff, turns]
      exact Bool.noConfusion
    refine .others leaves pairwise_replacementsOf fun request => ?_
    -- Whoever does not stay as it is has left its own category.
    have other : entity.category ∉ (rulebook.grants entity.category).transforms :=
      fun own => leaves (.inr (.inl own))
    rw [if_pos rfl, mem_replacementsOf_iff_yields, and_iff_right other]

/-- Those who stay and what the others make way for are the shares of all, in another order. -/
theorem perm_flatMap_shareOf (rulebook : Rulebook) (entities : List Entity) :
    ((entities.filter (!rulebook.turns ·)).map Entity.toRequest ++
        (entities.filter rulebook.turns).flatMap rulebook.replacementsOf).Perm
      (entities.flatMap rulebook.shareOf) := by
  have stay : (entities.filter (!rulebook.turns ·)).map Entity.toRequest =
      (entities.filter (!rulebook.turns ·)).flatMap rulebook.shareOf := by
    rw [List.map_eq_flatMap]
    refine List.flatMap_congr fun entity member => ?_
    rw [shareOf, if_neg (by simpa using (List.mem_filter.mp member).2)]
  have leave : (entities.filter rulebook.turns).flatMap rulebook.replacementsOf =
      (entities.filter rulebook.turns).flatMap rulebook.shareOf := by
    refine List.flatMap_congr fun entity member => ?_
    rw [shareOf, if_pos (List.mem_filter.mp member).2]
  -- The two halves of the list are the list, up to order.
  have halves := List.perm_append_comm.trans (List.filter_append_perm rulebook.turns entities)
  rw [stay, leave, ← List.flatMap_append]
  exact halves.flatMap_right _

end Rulebook

namespace World

variable {world : World}

/-- If only those go who were there, those who come are those who are new. -/
theorem Becomes.spawned_eq {left : World} {gone spawned : List EntityId}
    (becomes : world.Becomes gone spawned left) (known : ∀ id ∈ gone, id ∈ world.ids) :
    spawned = left.ids.filter (!world.ids.contains ·) := by
  -- Nobody who comes was there, so nobody who comes can go.
  rw [becomes.ids_eq, List.filter_filter, List.filter_append, List.filter_eq_nil_iff.mpr,
    List.filter_eq_self.mpr, List.nil_append]
  · intro id new
    have absent := becomes.not_mem_ids_of_mem_spawned new
    simp [absent, mt (known id) absent]
  · intro id old
    simp [old]

/-- Identifiers that are not live are erased without effect. -/
theorem eraseAll_of_not_mem {ids : List EntityId} (missing : ∀ id ∈ ids, id ∉ world.ids) :
    world.eraseAll ids = world := by
  -- The first of them changes nothing, so that the others are still not live.
  unfold eraseAll
  induction ids with
  | nil => rfl
  | cons first rest ih =>
    obtain ⟨here, further⟩ := List.forall_mem_cons.mp missing
    rw [List.foldl_cons, (take?_of_not_mem here).2, ih further]

end World

namespace Outcome

variable {outcome : Outcome} {rulebook : Rulebook} {world equipped left : World}
  {ids : List EntityId} {replacements : List Replacement}

/-- An outcome that lists nobody who is live is carried out without effect. -/
theorem carryOut_of_not_mem (missing : ∀ id ∈ outcome.gone, id ∉ world.ids) :
    outcome.carryOut world = .ok ([], world) := by
  -- Nobody is erased, and every replacement is skipped.
  have skipped : ∀ replacements : List Replacement,
      (∀ replacement ∈ replacements, replacement.old ∉ world.ids) →
        replaceAll world replacements = .ok ([], world) := by
    intro replacements absent
    induction replacements with
    | nil => rfl
    | cons first rest ih =>
      obtain ⟨here, further⟩ := List.forall_mem_cons.mp absent
      rw [replaceAll_cons_of_not_mem here, ih further]
  unfold carryOut
  rw [World.eraseAll_of_not_mem fun id listed => missing id (List.mem_append_left _ listed)]
  refine skipped _ fun replacement listed => missing _ (List.mem_append_right _ ?_)
  exact List.mem_map_of_mem listed

/-- Replacing different live entities leaves all others, and after them those that are created. -/
theorem replaceAll_eq_ok (distinct : (replacements.map (·.old)).Nodup)
    (live : ∀ replacement ∈ replacements, replacement.old ∈ world.ids)
    (replaced : replaceAll world replacements = .ok (ids, left)) :
    ∃ created : List Entity, left.entities =
        world.entities.filter (!(replacements.map (·.old)).contains ·.id) ++ created ∧
      created.map Entity.toRequest = replacements.flatMap (·.spawns) ∧
      created.map (·.id) = ids := by
  -- By induction on the replacements: nobody whom the first one creates is replaced by the others.
  induction replacements generalizing world ids with
  | nil =>
    cases replaced
    exact ⟨[], by simp, rfl, rfl⟩
  | cons first rest ih =>
    -- The first old entity is live, so that its successors are created.
    obtain ⟨apart, distinct⟩ := List.nodup_cons.mp distinct
    obtain ⟨here, further⟩ := List.forall_mem_cons.mp live
    rw [replaceAll_cons_of_mem here] at replaced
    obtain ⟨⟨earlier, middle⟩, made, replaced⟩ := bind_eq_ok_iff.mp replaced
    obtain ⟨⟨later, last⟩, others, replaced⟩ := bind_eq_ok_iff.mp replaced
    cases replaced
    obtain ⟨_, added, entities, requested, named⟩ := World.createAll_eq_ok made
    -- The other old entities are still live then.
    have old : ∀ replacement ∈ rest, replacement.old ∈ (world.erase first.old).ids := by
      intro replacement listed
      refine World.mem_ids_erase_iff.mpr ⟨further replacement listed, fun same => apart ?_⟩
      exact List.mem_map.mpr ⟨replacement, listed, same⟩
    have comes := World.becomes_createAll made
    obtain ⟨created, entities', requested', named'⟩ := ih distinct
      (fun replacement listed => World.mem_ids_createAll made (old replacement listed)) others
    refine ⟨added ++ created, ?_, ?_, ?_⟩
    · -- And none of the new ones is among them.
      have new : added.filter (!(rest.map (·.old)).contains ·.id) = added := by
        refine List.filter_eq_self.mpr fun entity member => ?_
        rw [Bool.not_eq_true', ← Bool.not_eq_true, List.contains_iff_mem]
        intro listed
        obtain ⟨replacement, listed, same⟩ := List.mem_map.mp listed
        refine comes.not_mem_ids_of_mem_spawned ?_ (old replacement listed)
        rw [← named, same]
        exact List.mem_map_of_mem member
      rw [entities', entities, World.entities_erase, List.filter_append, new, List.filter_filter,
        List.append_assoc]
      refine congrArg (· ++ _) (List.filter_congr fun entity _ => ?_)
      rw [List.map_cons, List.contains_cons, Bool.not_or, Bool.and_comm, bne]
    · rw [List.map_append, requested, requested', List.flatMap_cons]
    · rw [List.map_append, named, named']

/-- Carrying out what the rules ask for leaves everybody who is not listed as gone, and after them
those that are created. -/
theorem carryOut_eq_ok (asked : outcome.replacements = world.replacements rulebook outcome.removals)
    (carried : outcome.carryOut world = .ok (ids, left)) :
    ∃ created : List Entity,
      left.entities = world.entities.filter (!outcome.gone.contains ·.id) ++ created ∧
      created.map Entity.toRequest = outcome.replacements.flatMap (·.spawns) ∧
      created.map (·.id) = ids := by
  -- The old entities of the replacements are live and distinct, so that all are erased.
  obtain ⟨distinct, live⟩ := old_of_replacements world rulebook outcome.removals
  rw [← asked] at distinct live
  obtain ⟨created, entities, requested, named⟩ := replaceAll_eq_ok distinct live carried
  refine ⟨created, ?_, requested, named⟩
  rw [entities, World.entities_eraseAll, List.filter_filter]
  refine congrArg (· ++ _) (List.filter_congr fun entity _ => ?_)
  rw [gone, List.contains_append, Bool.not_or, Bool.and_comm]

/-- Whoever is not listed as gone is not removed and does not make way. -/
theorem filter_gone (asked : outcome.replacements = world.replacements rulebook outcome.removals) :
    world.entities.filter (!outcome.gone.contains ·.id) =
      (standing world.entities outcome.removals).filter (!rulebook.turns ·) := by
  unfold standing
  rw [List.filter_filter]
  refine List.filter_congr fun entity live => ?_
  have removed : (outcome.removals.map (·.id)).contains entity.id =
      outcome.removals.any (·.id == entity.id) := by
    rw [Bool.eq_iff_iff, List.contains_iff_mem, List.mem_map, List.any_eq_true]
    simp only [beq_iff_eq]
  rw [gone, List.contains_append, removed, Bool.not_or, Bool.and_comm]
  cases struck : outcome.removals.any (·.id == entity.id) with
  | true => rw [Bool.not_true, Bool.and_false, Bool.and_false]
  | false =>
    -- Whoever is not removed is replaced under its own identifier.
    rw [Bool.not_false, Bool.and_true, Bool.and_true, Bool.not_inj_iff, Bool.eq_iff_iff,
      List.contains_iff_mem, asked, World.replacements_eq, List.map_map, List.mem_map]
    constructor
    · rintro ⟨other, member, same⟩
      obtain ⟨listed, turns⟩ := List.mem_filter.mp member
      rwa [← World.eq_of_id (mem_standing_iff.mp listed).1 live same]
    · intro turns
      refine ⟨entity, List.mem_filter.mpr ⟨List.mem_filter.mpr ⟨live, ?_⟩, turns⟩, rfl⟩
      rw [struck, Bool.not_false]

/-- Who is removed from an equipped world does not depend on what the entities carry. -/
theorem standing_equip (world : World) (rulebook : Rulebook) (removals : List Removal) :
    standing (world.mapEntities rulebook.equip).entities removals =
      (standing world.entities removals).map rulebook.equip := by
  -- Removals name identifiers, which equipping keeps.
  unfold standing
  rw [World.entities_mapEntities rulebook.id_equip, List.filter_map]
  simp only [Function.comp_def, Rulebook.id_equip]

/-- Carrying out what the rules ask for is a simultaneous substitution. -/
theorem substitutes_carryOut {applier after : RuleApplier} {config : Config} {elapsed : Duration}
    (reachable : world.Reachable)
    (applied : applier.advance world rulebook config elapsed = .ok (outcome, after, equipped))
    (carried : outcome.carryOut equipped = .ok (ids, left)) :
    outcome.Substitutes rulebook world ids left := by
  obtain ⟨becomes, known⟩ := becomes_carryOut reachable applied carried
  obtain ⟨rfl, removals, asked, _⟩ := RuleApplier.advance_eq_ok applied
  obtain ⟨created, entities, requested, rfl⟩ := carryOut_eq_ok asked carried
  rw [filter_gone asked, standing_equip] at entities
  -- Whoever is left has stayed as it is or has come, and those who come were not there before.
  have mem (entity : Entity) : entity ∈ left.entities ↔
      (entity ∈ (standing world.entities outcome.removals).map rulebook.equip ∧
        rulebook.Keeps entity) ∨ entity ∈ created := by
    rw [entities, List.mem_append, List.mem_filter, Bool.not_eq_true',
      Rulebook.turns_eq_false_iff]
  have new : ∀ entity ∈ created, entity.id ∉ world.ids := fun entity member =>
    becomes.not_mem_ids_of_mem_spawned (List.mem_map_of_mem member)
  exact
    { shares := by
        refine ⟨fun entity => rulebook.shareOf (rulebook.equip entity),
          fun entity => rulebook.makes_shareOf _, ?_⟩
        -- Keeping some and adding the spawns of the others permutes the shares of all.
        have shares := rulebook.perm_flatMap_shareOf
          ((standing world.entities outcome.removals).map rulebook.equip)
        rw [entities, List.map_append, requested, asked, World.replacements_eq, standing_equip,
          List.flatMap_map]
        rwa [List.flatMap_map] at shares
      kept := fun entity stands keeps =>
        (mem _).mpr (.inl ⟨List.mem_map_of_mem stands, keeps⟩)
      gone := by
        intro entity live listed
        -- One of those who come has a new identifier, so that this is an old one.
        obtain ⟨survivor, stays, same⟩ := List.mem_map.mp listed
        rcases (mem _).mp stays with ⟨old, keeps⟩ | come
        · obtain ⟨before, stands, rfl⟩ := List.mem_map.mp old
          rw [Rulebook.id_equip] at same
          cases World.eq_of_id (mem_standing_iff.mp stands).1 live same
          exact ⟨stands, keeps⟩
        · exact absurd (same ▸ List.mem_map_of_mem live) (new survivor come)
      untouched := by
        -- Equipping passes over indicators.
        have exempt (entity : Entity) (governed : entity.isGoverned = true) :
            (!entity.isGoverned) = false := by rw [governed, Bool.not_true]
        rw [filter_carryOut_of_exempt exempt removals asked carried,
          World.entities_mapEntities rulebook.id_equip, List.filter_map]
        simp only [Function.comp_def, Rulebook.isGoverned_equip]
        refine (List.map_congr_left fun entity member => ?_).trans (List.map_id _)
        exact Rulebook.equip_of_exempt (by simpa using (List.mem_filter.mp member).2)
      named := becomes.spawned_eq known
      numbered := becomes.numbered
      again := carryOut_of_not_mem fun id listed live => (becomes.mem_ids_iff.mp live).2 listed }

end Outcome

namespace World

/-- Whatever world a host can bring about and whatever rules it has, an update that the clock has
room for equips the entities, and while there are identifiers what it asks for can be carried out.
That is a simultaneous substitution: every entity becomes what the rules make of it alone, nobody
who is new takes part, and doing it again changes nothing. -/
theorem Reachable.carryOut_substitutes {world : World} (reachable : world.Reachable)
    (rulebook : Rulebook) (config : Config) {applier : RuleApplier} {elapsed clock : Duration}
    (room : applier.clock.add elapsed = .ok clock) :
    ∃ outcome later equipped,
      applier.advance world rulebook config elapsed = .ok (outcome, later, equipped) ∧
      equipped = world.mapEntities rulebook.equip ∧
      (world.nextId.toNat + Outcome.created outcome.replacements < UInt32.size →
        ∃ ids left, outcome.carryOut equipped = .ok (ids, left) ∧
          outcome.Substitutes rulebook world ids left) := by
  -- While there are identifiers it is carried out, and what is carried out substitutes.
  obtain ⟨outcome, later, equipped, applied, _⟩ :=
    RuleApplier.exists_advance room world rulebook config
  have equips := (RuleApplier.advance_eq_ok applied).1
  refine ⟨outcome, later, equipped, applied, equips, fun enough => ?_⟩
  obtain ⟨ids, left, carried, _⟩ :=
    Outcome.carryOut_of_room reachable.consistent applied enough
  exact ⟨ids, left, carried, Outcome.substitutes_carryOut reachable applied carried⟩

/-- A red rock turns into a wall while the wall on its cell turns into a rock and into its own name.
Water that keeps its category, lava that is associated with the goal and an indicator stay. -/
theorem carryOut_substitutes_swapping : ∃ bare built world outcome later equipped ids left,
    empty 2 1 = .ok bare ∧
    bare.createAll [.object .rock ⟨0, 0⟩, .object .wall ⟨0, 0⟩, .object .water ⟨1, 0⟩,
      .object .lava ⟨1, 0⟩, .overlay ⟨.rock, .wall⟩ ⟨0, 0⟩] = .ok (built, world) ∧
    RuleApplier.initial.advance world (.ofStatements [(.rock, .transform .wall),
      (.rock, .property .red), (.wall, .transform .rock), (.wall, .transform .text),
      (.water, .transform .water), (.water, .transform .wall), (.lava, .transform .goal)])
      .standard .zero = .ok (outcome, later, equipped) ∧
    outcome.carryOut equipped = .ok (ids, left) ∧
    ids = [⟨5⟩, ⟨6⟩, ⟨7⟩] ∧
    left.entities.map Entity.toRequest = [.object .water ⟨1, 0⟩,
      { SpawnRequest.object .lava ⟨1, 0⟩ with properties := .goal },
      .overlay ⟨.rock, .wall⟩ ⟨0, 0⟩,
      { SpawnRequest.object .wall ⟨0, 0⟩ with properties := .red }, .object .rock ⟨0, 0⟩,
      .tile .wall ⟨0, 0⟩] ∧
    outcome.carryOut left = .ok ([], left) := by
  -- Evaluated in one piece, so that the world is built only once.
  have known : (do
      let bare ← empty 2 1
      let built ← bare.createAll [.object .rock ⟨0, 0⟩, .object .wall ⟨0, 0⟩,
        .object .water ⟨1, 0⟩, .object .lava ⟨1, 0⟩, .overlay ⟨.rock, .wall⟩ ⟨0, 0⟩]
      let applied ← RuleApplier.initial.advance built.2 (.ofStatements [(.rock, .transform .wall),
        (.rock, .property .red), (.wall, .transform .rock), (.wall, .transform .text),
        (.water, .transform .water), (.water, .transform .wall), (.lava, .transform .goal)])
        .standard .zero
      let carried ← applied.1.carryOut applied.2.2
      return (built.2.nextId.toNat + Outcome.created applied.1.replacements, carried.1,
        carried.2.entities.map Entity.toRequest) : Except Error _) =
      .ok (8, [⟨5⟩, ⟨6⟩, ⟨7⟩], [.object .water ⟨1, 0⟩,
        { SpawnRequest.object .lava ⟨1, 0⟩ with properties := .goal },
        .overlay ⟨.rock, .wall⟩ ⟨0, 0⟩,
        { SpawnRequest.object .wall ⟨0, 0⟩ with properties := .red }, .object .rock ⟨0, 0⟩,
        .tile .wall ⟨0, 0⟩]) := by
    cbv
  obtain ⟨bare, empty, known⟩ := bind_eq_ok_iff.mp known
  obtain ⟨⟨built, world⟩, created, known⟩ := bind_eq_ok_iff.mp known
  obtain ⟨⟨outcome, later, equipped⟩, applied, known⟩ := bind_eq_ok_iff.mp known
  obtain ⟨⟨ids, left⟩, carried, known⟩ := bind_eq_ok_iff.mp known
  simp only [Pure.pure, Except.pure, Except.ok.injEq, Prod.mk.injEq] at known
  obtain ⟨count, listed, requests⟩ := known
  have room : RuleApplier.initial.clock.add .zero = .ok .zero := by cbv
  obtain ⟨_, _, _, again, _, substitutes⟩ :=
    ((Reachable.empty empty).createAll created).carryOut_substitutes
      (.ofStatements [(.rock, .transform .wall), (.rock, .property .red), (.wall, .transform .rock),
        (.wall, .transform .text), (.water, .transform .water), (.water, .transform .wall),
        (.lava, .transform .goal)]) .standard room
  cases applied.symm.trans again
  obtain ⟨_, _, same, substituted⟩ := substitutes (by rw [count]; decide)
  cases carried.symm.trans same
  exact ⟨bare, built, world, outcome, later, equipped, ids, left, empty, created, applied, carried,
    listed, requests, substituted.again⟩

end World

end WordTiles
