import WordTiles.Proofs.Rules.Destroying
import WordTiles.Proofs.Rules.Rounds

/-! Why an entity is destroyed: each removal is what some rule demands when its turn has come on a
cell. What happens on a cell depends neither on its layers, nor on the identifiers, nor on other
cells. -/

namespace WordTiles

variable {rules : List DestructionRule} {rule : DestructionRule} {here here' : List Entity}
  {earlier earlier' foreign own : List Removal} {removal : Removal} {entity : Entity}
  {rename : EntityId → EntityId} {cause : RemovalCause}

/-- The same entity under another identifier. -/
def Entity.renumber (rename : EntityId → EntityId) (entity : Entity) : Entity :=
  -- Nothing but the identifier changes.
  { entity with id := rename entity.id }

/-- Removals of nobody on the cell do not matter there. -/
theorem destructionAt_append (apart : ∀ removal ∈ foreign, ∀ entity ∈ here,
    removal.id ≠ entity.id) :
    destructionAt rules here (foreign ++ own) = foreign ++ destructionAt rules here own := by
  -- By induction on the rules, each of which strikes as if only its own cell had been struck.
  unfold destructionAt
  induction rules generalizing own with
  | nil => rfl
  | cons first rest ih =>
    have struck : first.strike here (foreign ++ own) = first.strike here own := by
      refine DestructionRule.strike_congr fun entity listed cause => ?_
      rw [List.mem_append, or_iff_right fun member => apart _ member entity listed rfl]
    rw [List.foldl_cons, List.foldl_cons, struck, List.append_assoc, ih]

/-- The removals of the entities of a cell are the same under other identifiers. -/
def Removal.Agree (rename : EntityId → EntityId) (here : List Entity)
    (earlier earlier' : List Removal) : Prop :=
  -- Removals of entities of other cells are not compared.
  ∀ entity ∈ here, ∀ cause,
    (⟨rename entity.id, cause⟩ : Removal) ∈ earlier' ↔ ⟨entity.id, cause⟩ ∈ earlier

section Renumbering

variable (same : here'.Perm (here.map (·.renumber rename))) (distinct' : (here'.map (·.id)).Nodup)
  (agree : Removal.Agree rename here earlier earlier')

include same distinct' in
/-- Entities that stay distinct under other identifiers have no new identifier in common. -/
theorem nodup_map_rename : ((here.map (·.id)).map rename).Nodup := by
  -- In another order, these are the identifiers of the second list.
  have named : (here.map (·.renumber rename)).map (·.id) = (here.map (·.id)).map rename := by
    rw [List.map_map, List.map_map]
    rfl
  exact named ▸ (same.map _).nodup_iff.mp distinct'

include same agree in
/-- Under its other identifier an entity stands as it did. -/
theorem Entity.stands_renumber_iff (listed : entity ∈ here) :
    (entity.renumber rename).Stands here' earlier' ↔ entity.Stands here earlier := by
  -- It is there in both lists, and it has been removed for the same causes.
  have there : entity.renumber rename ∈ here' :=
    same.mem_iff.mpr (List.mem_map.mpr ⟨entity, listed, rfl⟩)
  unfold Stands
  rw [and_iff_right there, and_iff_right listed]
  exact forall_congr' fun cause => not_congr (agree entity listed cause)

namespace DestructionRule

include same distinct' agree in
/-- Under its other identifier an entity is struck as it was. -/
theorem strikes_renumber_iff (listed : entity ∈ here) :
    rule.Strikes here' earlier' (entity.renumber rename) ↔ rule.Strikes here earlier entity := by
  have stands {entity : Entity} (listed : entity ∈ here) :
      (entity.renumber rename).Stands here' earlier' ↔ entity.Stands here earlier :=
    Entity.stands_renumber_iff same agree listed
  have apart := List.inj_on_of_nodup_map (nodup_map_rename same distinct')
  -- The destroyer next to it is renumbered as well, and stays a different entity.
  constructor
  · rintro ⟨standing, harmed, destroyer, standing', destroys, differ⟩
    obtain ⟨before, listed', rfl⟩ := List.mem_map.mp (same.mem_iff.mp standing'.1)
    exact ⟨(stands listed).mp standing, harmed, before, (stands listed').mp standing', destroys,
      fun same => differ (congrArg rename same)⟩
  · rintro ⟨standing, harmed, destroyer, standing', destroys, differ⟩
    refine ⟨(stands listed).mpr standing, harmed, destroyer.renumber rename,
      (stands standing'.1).mpr standing', destroys, fun same => differ ?_⟩
    exact apart (List.mem_map_of_mem standing'.1) (List.mem_map_of_mem listed) same

include same distinct' agree in
/-- Under its other identifier an entity is used up as it was. -/
theorem spends_renumber_iff (listed : entity ∈ here) :
    rule.Spends here' earlier' (entity.renumber rename) ↔ rule.Spends here earlier entity := by
  have strikes {entity : Entity} (listed : entity ∈ here) :
      rule.Strikes here' earlier' (entity.renumber rename) ↔ rule.Strikes here earlier entity :=
    strikes_renumber_iff same distinct' agree listed
  have stands := Entity.stands_renumber_iff same agree listed
  -- It is spared as it was, and whoever is struck in its place is renumbered.
  constructor
  · rintro ⟨spending, standing, destroys, spared, victim, struck⟩
    obtain ⟨before, listed', rfl⟩ := List.mem_map.mp (same.mem_iff.mp struck.stands.1)
    exact ⟨spending, stands.mp standing, destroys, mt (strikes listed).mpr spared, before,
      (strikes listed').mp struck⟩
  · rintro ⟨spending, standing, destroys, spared, victim, struck⟩
    exact ⟨spending, stands.mpr standing, destroys, mt (strikes listed).mp spared, _,
      (strikes struck.stands.1).mpr struck⟩

include same distinct' agree in
/-- If removals agree when the turn of a rule comes, they agree afterwards. -/
theorem agree_strike : Removal.Agree rename here (earlier ++ rule.strike here earlier)
    (earlier' ++ rule.strike here' earlier') := by
  have distinct : (here.map (·.id)).Nodup := .of_map rename (nodup_map_rename same distinct')
  intro entity listed cause
  have there : entity.renumber rename ∈ here' :=
    same.mem_iff.mpr (List.mem_map.mpr ⟨entity, listed, rfl⟩)
  rw [List.mem_append, List.mem_append]
  refine or_congr (agree entity listed cause) ?_
  -- What the rule adds is what it demands of the entity, under either identifier.
  rw [mem_strike_iff distinct, demands_iff distinct listed,
    ← strikes_renumber_iff same distinct' agree listed,
    ← spends_renumber_iff same distinct' agree listed]
  exact (mem_strike_iff distinct').trans (demands_iff distinct' there)

end DestructionRule

include same distinct' agree in
/-- If removals agree before the rules strike, they agree afterwards. -/
theorem agree_destructionAt : Removal.Agree rename here (destructionAt rules here earlier)
    (destructionAt rules here' earlier') := by
  -- By induction on the rules: the removals agree again when the first one has struck.
  unfold destructionAt
  induction rules generalizing earlier earlier' with
  | nil => exact agree
  | cons first rest ih => exact ih (first.agree_strike same distinct' agree)

end Renumbering

namespace World

variable {world world' : World} {cell : Cell}

/-- The governed entities on a cell, bottom layer first. -/
def governedAt (world : World) (cell : Cell) : List Entity :=
  -- Only these can be removed by their cell.
  (world.occupants cell).filter (·.isGoverned)

/-- No cell is listed as occupied twice. -/
theorem nodup_occupied (world : World) : world.occupied.Nodup :=
  -- The cells are made distinct before they are sorted.
  (List.mergeSort_perm _ _).nodup_iff.mpr (nodup_eraseDups _)

namespace Consistent

/-- They are live and stand there. -/
theorem mem_governedAt_iff (consistent : world.Consistent) : entity ∈ world.governedAt cell ↔
    entity ∈ world.entities ∧ entity.position = cell ∧ entity.isGoverned = true := by
  -- Occupants of a cell are the live entities that stand there.
  rw [governedAt, List.mem_filter, consistent.mem_occupants_iff, and_assoc]

/-- No two of them have the same identifier. -/
theorem nodup_governedAt (consistent : world.Consistent) (cell : Cell) :
    ((world.governedAt cell).map (·.id)).Nodup :=
  -- Occupants are distinct, and a part of them is as well.
  (consistent.nodup_occupants cell).sublist (List.filter_sublist.map _)

/-- Each cell is struck as if no other cell had been. -/
theorem destruction_eq_flatMap (consistent : world.Consistent) :
    world.destruction rules =
      world.occupied.flatMap fun cell => destructionAt rules (world.governedAt cell) [] := by
  -- From cell to cell, those who have been removed stood on other cells.
  have general (cells : List Cell) (once : cells.Nodup) (earlier : List Removal)
      (apart : ∀ removal ∈ earlier, ∀ cell ∈ cells, ∀ entity ∈ world.governedAt cell,
        removal.id ≠ entity.id) :
      cells.foldl (fun removals cell => destructionAt rules (world.governedAt cell) removals)
          earlier =
        earlier ++ cells.flatMap fun cell => destructionAt rules (world.governedAt cell) [] := by
    induction cells generalizing earlier with
    | nil => simp
    | cons first rest ih =>
      -- Nobody on the first cell has been removed, so its removals are those of a fresh start.
      obtain ⟨absent, once⟩ := List.nodup_cons.mp once
      have struck : destructionAt rules (world.governedAt first) earlier =
          earlier ++ destructionAt rules (world.governedAt first) [] := by
        rw [← destructionAt_append fun removal member => apart removal member first (.head _),
          List.append_nil]
      rw [List.foldl_cons, struck, ih once, List.flatMap_cons, List.append_assoc]
      intro removal member cell listed entity standing same
      rcases List.mem_append.mp member with before | added
      · exact apart removal before cell (.tail _ listed) entity standing same
      · -- Whoever it removes stands on it, and so on none of the others.
        obtain ⟨_, _, other, there, known, _⟩ :=
          (exists_of_mem_destructionAt added).resolve_left List.not_mem_nil
        obtain ⟨live, here, _⟩ := consistent.mem_governedAt_iff.mp standing
        obtain ⟨live', here', _⟩ := consistent.mem_governedAt_iff.mp there
        cases eq_of_id live live' (same.symm.trans known.symm)
        exact absent (here' ▸ here ▸ listed)
  exact general world.occupied world.nodup_occupied [] fun _ none => absurd none List.not_mem_nil

/-- Whether somebody is removed is decided on the cell. -/
theorem mem_destruction_iff_of_mem (consistent : world.Consistent)
    (standing : entity ∈ world.governedAt cell) :
    ⟨entity.id, cause⟩ ∈ world.destruction rules ↔
      ⟨entity.id, cause⟩ ∈ destructionAt rules (world.governedAt cell) [] := by
  obtain ⟨live, here, _⟩ := consistent.mem_governedAt_iff.mp standing
  rw [consistent.destruction_eq_flatMap, List.mem_flatMap]
  -- Of all cells it is the one on which the entity stands.
  constructor
  · rintro ⟨other, _, struck⟩
    -- Whoever is removed there stands there.
    obtain ⟨_, _, twin, there, known, _⟩ :=
      (exists_of_mem_destructionAt struck).resolve_left List.not_mem_nil
    obtain ⟨live', here', _⟩ := consistent.mem_governedAt_iff.mp there
    cases eq_of_id live live' known.symm
    exact here ▸ here' ▸ struck
  · exact fun struck => ⟨cell, mem_occupied_iff.mpr ⟨entity, live, here⟩, struck⟩

/-- The removals of a world are what its rules demand on its cells, each in its turn. -/
theorem mem_destruction_iff (consistent : world.Consistent) :
    removal ∈ world.destruction rules ↔
      ∃ cell before rule after, rules = before ++ rule :: after ∧
        rule.Demands (world.governedAt cell) (world.destruction before) removal := by
  -- On its cell a rule finds what the earlier rules removed there, which is all that it looks at.
  have turn (cell : Cell) (before : List DestructionRule) (rule : DestructionRule) :
      removal ∈ rule.strike (world.governedAt cell)
          (destructionAt before (world.governedAt cell) []) ↔
        rule.Demands (world.governedAt cell) (world.destruction before) removal := by
    rw [← DestructionRule.mem_strike_iff (consistent.nodup_governedAt cell)]
    rw [DestructionRule.strike_congr fun entity standing cause =>
      (consistent.mem_destruction_iff_of_mem standing).symm]
  rw [consistent.destruction_eq_flatMap, List.mem_flatMap]
  simp only [mem_destructionAt_iff, List.not_mem_nil, false_or, turn]
  refine ⟨fun ⟨cell, _, struck⟩ => ⟨cell, struck⟩, fun ⟨cell, struck⟩ => ⟨cell, ?_, struck⟩⟩
  -- A cell on which anything is demanded is occupied.
  obtain ⟨before, rule, after, _, demands⟩ := struck
  obtain ⟨entity, stands, _⟩ := demands.exists_standing
  obtain ⟨live, here, _⟩ := consistent.mem_governedAt_iff.mp stands.1
  exact mem_occupied_iff.mpr ⟨entity, live, here⟩

/-- What happens to those on a cell depends neither on its layers, nor on the identifiers, nor on
other cells. -/
theorem agree_destruction (consistent : world.Consistent) (consistent' : world'.Consistent)
    (same : (world'.occupants cell).Perm ((world.occupants cell).map (·.renumber rename))) :
    Removal.Agree rename (world.occupants cell) (world.destruction rules)
      (world'.destruction rules) := by
  -- Both cells are struck on their own, from the start.
  intro entity listed cause
  have there : entity.renumber rename ∈ world'.occupants cell :=
    same.mem_iff.mpr (List.mem_map.mpr ⟨entity, listed, rfl⟩)
  cases governed : entity.isGoverned with
  | false =>
    -- Nobody who is not governed is removed from either world.
    have spared {world : World} {cell : Cell} {entity : Entity} (consistent : world.Consistent)
        (listed : entity ∈ world.occupants cell) (governed : entity.isGoverned = false) :
        ⟨entity.id, cause⟩ ∉ world.destruction rules := by
      intro removed
      obtain ⟨_, _, twin, live, governed', known, _⟩ := exists_of_mem_destruction removed
      cases eq_of_id live (consistent.mem_occupants_iff.mp listed).1 known
      exact Bool.false_ne_true (governed.symm.trans governed')
    exact iff_of_false (spared consistent' there governed) (spared consistent listed governed)
  | true =>
    -- The governed entities of the two cells are the same under other identifiers.
    have among : (world'.governedAt cell).Perm
        ((world.governedAt cell).map (·.renumber rename)) := by
      unfold governedAt
      exact (same.filter _).trans (.of_eq List.filter_map)
    have standing : entity ∈ world.governedAt cell := List.mem_filter.mpr ⟨listed, governed⟩
    have standing' : entity.renumber rename ∈ world'.governedAt cell :=
      List.mem_filter.mpr ⟨there, governed⟩
    rw [consistent.mem_destruction_iff_of_mem standing]
    refine (consistent'.mem_destruction_iff_of_mem standing').trans ?_
    exact agree_destructionAt among (consistent'.nodup_governedAt cell)
      (fun _ _ _ => iff_of_false List.not_mem_nil List.not_mem_nil) entity standing cause

end Consistent

/-- Changing entities in place leaves them in their stacks. -/
theorem occupants_mapEntities {change : Entity → Entity}
    (same : ∀ entity, (change entity).id = entity.id) :
    (world.mapEntities change).occupants cell = (world.occupants cell).map change := by
  -- Each identifier of the stack finds the changed entity.
  have found : (world.mapEntities change).find? = fun id => (world.find? id).map change := by
    funext id
    rw [find?_mapEntities]
    refine congrArg (Option.map · _) (funext fun entity => ?_)
    rw [← same entity]
  unfold occupants
  rw [found, List.map_filterMap]
  rfl

end World

/-- What an entity is equipped with does not depend on its identifier. -/
theorem Rulebook.equip_renumber {rulebook : Rulebook} :
    rulebook.equip (entity.renumber rename) = (rulebook.equip entity).renumber rename := by
  -- Neither the category nor whether it is governed changes with the identifier.
  have governed : (entity.renumber rename).isGoverned = entity.isGoverned := rfl
  unfold equip
  rw [governed]
  split <;> rfl

namespace World

/-- Whatever world a host can bring about, whatever rules it has, an update that the clock has room
for asks for each removal once and for those of live governed entities only. It asks for what a rule
of destruction demands of the equipped entities of one cell in its turn: a victim that is not
immune, next to another entity that destroys, or a destroyer that is used up but not a victim, next
to a victim. Nobody is involved whose removal was asked for by an earlier rule. On any world in
which the same entities, under any identifiers and in any order, are on a cell, the same happens
there. -/
theorem Reachable.advance_removals {world : World} (reachable : world.Reachable)
    (rulebook : Rulebook) (config : Config) {applier : RuleApplier} {elapsed clock : Duration}
    (room : applier.clock.add elapsed = .ok clock) :
    ∃ outcome later equipped,
      applier.advance world rulebook config elapsed = .ok (outcome, later, equipped) ∧
      equipped = world.mapEntities rulebook.equip ∧
      (outcome.removals.map (·.id)).Nodup ∧
      (∀ removal ∈ outcome.removals, ∃ entity ∈ world.entities,
        entity.id = removal.id ∧ entity.isGoverned = true) ∧
      (∀ removal, removal ∈ outcome.removals ↔
        ∃ cell before rule after, config.destruction = before ++ rule :: after ∧
          rule.Demands (equipped.governedAt cell) (equipped.destruction before) removal) ∧
      ∀ (world' : World) (applier' later' : RuleApplier) (elapsed' : Duration) (outcome' : Outcome)
        (equipped' : World), world'.Reachable →
        applier'.advance world' rulebook config elapsed' = .ok (outcome', later', equipped') →
          ∀ (rename : EntityId → EntityId) (cell : Cell),
            (world'.occupants cell).Perm ((world.occupants cell).map (·.renumber rename)) →
              Removal.Agree rename (world.occupants cell) outcome.removals outcome'.removals := by
  have settled {world : World} (reachable : world.Reachable) :
      (world.mapEntities rulebook.equip).Consistent :=
    reachable.consistent.mapEntities (Rulebook.position_equip rulebook)
  -- Nothing but the clock can fail, and the removals are those of the equipped world.
  refine ⟨_, _, _, bind_eq_ok_iff.mpr ⟨clock, room, rfl⟩, rfl,
    (settled reachable).nodup_destruction, ?_, fun _ => (settled reachable).mem_destruction_iff, ?_⟩
  · intro removal member
    obtain ⟨_, _, _, equipped, governed, same, _⟩ := exists_of_mem_destruction member
    obtain ⟨entity, live, rfl⟩ := Rulebook.mem_entities_equip_iff.mp equipped
    rw [Rulebook.id_equip] at same
    rw [Rulebook.isGoverned_equip] at governed
    exact ⟨entity, live, same, governed⟩
  · intro world' applier' later' elapsed' outcome' equipped' reachable' applied rename cell same
    obtain ⟨rfl, removals, _⟩ := RuleApplier.advance_eq_ok applied
    rw [removals]
    -- The entities on the cell are equipped alike in both worlds.
    have alike : ((world'.mapEntities rulebook.equip).occupants cell).Perm
        (((world.mapEntities rulebook.equip).occupants cell).map (·.renumber rename)) := by
      rw [occupants_mapEntities rulebook.id_equip, occupants_mapEntities rulebook.id_equip]
      refine (same.map _).trans (.of_eq ?_)
      simp only [List.map_map, Function.comp_def, Rulebook.equip_renumber]
    have agree : Removal.Agree rename ((world.mapEntities rulebook.equip).occupants cell)
        ((world.mapEntities rulebook.equip).destruction config.destruction)
        ((world'.mapEntities rulebook.equip).destruction config.destruction) :=
      (settled reachable).agree_destruction (settled reachable') alike
    intro entity listed cause
    have equipped : rulebook.equip entity ∈
        (world.mapEntities rulebook.equip).occupants cell :=
      occupants_mapEntities rulebook.id_equip ▸ List.mem_map_of_mem listed
    exact rulebook.id_equip entity ▸ agree _ equipped cause

/-- Water that a rulebook makes sink drowns a rock and goes down with it. With the rock below the
water, other identifiers and another rock elsewhere, the same happens. -/
theorem advance_removals_drowning : ∃ bare ids world bare' ids' world' outcome later equipped
    outcome' later' equipped', empty 1 1 = .ok bare ∧
    bare.createAll [.object .water ⟨0, 0⟩, .object .rock ⟨0, 0⟩] = .ok (ids, world) ∧
    empty 2 1 = .ok bare' ∧
    bare'.createAll [.object .rock ⟨1, 0⟩, .object .rock ⟨0, 0⟩, .object .water ⟨0, 0⟩] =
      .ok (ids', world') ∧
    RuleApplier.initial.advance world (.ofStatements [(.water, .property .sink)]) .standard .zero =
      .ok (outcome, later, equipped) ∧
    RuleApplier.initial.advance world' (.ofStatements [(.water, .property .sink)]) .standard .zero =
      .ok (outcome', later', equipped') ∧
    outcome.removals = [⟨⟨1⟩, .drowned⟩, ⟨⟨0⟩, .spent⟩] ∧
    (∃ cell before rule after, Config.standard.destruction = before ++ rule :: after ∧
      rule.Demands (equipped.governedAt cell) (equipped.destruction before) ⟨⟨0⟩, .spent⟩) ∧
    ⟨⟨2⟩, .spent⟩ ∈ outcome'.removals := by
  have known : (do
      let bare ← empty 1 1
      let built ← bare.createAll [.object .water ⟨0, 0⟩, .object .rock ⟨0, 0⟩]
      let bare' ← empty 2 1
      let built' ← bare'.createAll
        [.object .rock ⟨1, 0⟩, .object .rock ⟨0, 0⟩, .object .water ⟨0, 0⟩]
      let applied ← RuleApplier.initial.advance built.2
        (.ofStatements [(.water, .property .sink)]) .standard .zero
      let _ ← RuleApplier.initial.advance built'.2
        (.ofStatements [(.water, .property .sink)]) .standard .zero
      return (built.2.occupants ⟨0, 0⟩, built'.2.occupants ⟨0, 0⟩, applied.1.removals) :
        Except Error _) =
      .ok ([.ofSpawn ⟨0⟩ (.object .water ⟨0, 0⟩), .ofSpawn ⟨1⟩ (.object .rock ⟨0, 0⟩)],
        [.ofSpawn ⟨1⟩ (.object .rock ⟨0, 0⟩), .ofSpawn ⟨2⟩ (.object .water ⟨0, 0⟩)],
        [⟨⟨1⟩, .drowned⟩, ⟨⟨0⟩, .spent⟩]) := by
    decide +kernel
  obtain ⟨bare, built, known⟩ := bind_eq_ok_iff.mp known
  obtain ⟨⟨ids, world⟩, created, known⟩ := bind_eq_ok_iff.mp known
  obtain ⟨bare', built', known⟩ := bind_eq_ok_iff.mp known
  obtain ⟨⟨ids', world'⟩, created', known⟩ := bind_eq_ok_iff.mp known
  obtain ⟨⟨outcome, later, equipped⟩, applied, known⟩ := bind_eq_ok_iff.mp known
  obtain ⟨⟨outcome', later', equipped'⟩, applied', known⟩ := bind_eq_ok_iff.mp known
  simp only [Pure.pure, Except.pure, Except.ok.injEq, Prod.mk.injEq] at known
  obtain ⟨stack, stack', removals⟩ := known
  have room : RuleApplier.initial.clock.add .zero = .ok .zero := by cbv
  obtain ⟨_, _, _, again, _, _, _, justified, elsewhere⟩ :=
    ((Reachable.empty built).createAll created).advance_removals
      (.ofStatements [(.water, .property .sink)]) .standard room
  cases applied.symm.trans again
  have spent : ⟨⟨0⟩, .spent⟩ ∈ outcome.removals := removals ▸ .tail _ (.head _)
  -- The water is the first to come to the one cell, and the last to come to the other.
  have agree := elsewhere world' .initial later' .zero outcome' equipped'
    ((Reachable.empty built').createAll created') applied'
    (fun id => if id = ⟨0⟩ then ⟨2⟩ else id) ⟨0, 0⟩ (by rw [stack, stack']; exact .swap _ _ _)
  refine ⟨bare, ids, world, bare', ids', world', outcome, later, equipped, outcome', later',
    equipped', built, created, built', created', applied, applied', removals,
    (justified _).mp spent, ?_⟩
  exact (agree (.ofSpawn ⟨0⟩ (.object .water ⟨0, 0⟩)) (stack ▸ .head _) .spent).mpr spent

end World

end WordTiles
