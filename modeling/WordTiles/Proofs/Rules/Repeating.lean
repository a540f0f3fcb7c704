import WordTiles.Proofs.Rules.Justifying
import WordTiles.Proofs.Rules.Substituting

/-! Destruction is over in one pass: when what the rules ask for has been carried out, the same
rules find nothing more to destroy where nobody was replaced. -/

namespace WordTiles

/-- An outcome replaces nobody in the stack of a cell. -/
def Outcome.Spares (outcome : Outcome) (world : World) (cell : Cell) : Prop :=
  -- This is asked of the cell before the outcome is carried out, while the old entities stand
  -- there.
  ∀ replacement ∈ outcome.replacements, replacement.old ∉ world.stackAt cell

/-- Whatever a rule demands on a cell, it finds a destroyer and another entity that it harms
there. -/
theorem DestructionRule.Demands.exists_pair {rule : DestructionRule} {here : List Entity}
    {earlier : List Removal} {removal : Removal} (demands : rule.Demands here earlier removal) :
    ∃ destroyer ∈ here, ∃ victim ∈ here, rule.destroys destroyer = true ∧
      rule.harms victim = true ∧ destroyer.id ≠ victim.id := by
  -- Whoever is struck stands next to a destroyer, and nobody is used up unless somebody is struck.
  have pair {victim : Entity} (struck : rule.Strikes here earlier victim) :
      ∃ destroyer ∈ here, ∃ victim ∈ here, rule.destroys destroyer = true ∧
        rule.harms victim = true ∧ destroyer.id ≠ victim.id := by
    obtain ⟨destroyer, stands, destroys, differ⟩ := struck.exposed
    exact ⟨destroyer, stands.1, victim, struck.stands.1, destroys, struck.harmed, differ⟩
  cases demands with
  | victim struck => exact pair struck
  | destroyer spent => exact pair spent.struck.choose_spec

/-- Removals that a consistent world asks for come from a cell with a destroyer and another entity
that it harms. -/
theorem World.Consistent.exists_pair {world : World} (consistent : world.Consistent)
    {rules : List DestructionRule} {removal : Removal}
    (member : removal ∈ world.destruction rules) :
    ∃ entity ∈ world.entities, entity.id = removal.id ∧
      ∃ rule ∈ rules, ∃ destroyer ∈ world.governedAt entity.position,
        ∃ victim ∈ world.governedAt entity.position, rule.destroys destroyer = true ∧
          rule.harms victim = true ∧ destroyer.id ≠ victim.id := by
  -- The demand names its cell, and there the two that meet.
  obtain ⟨cell, before, rule, after, rfl, demands⟩ := consistent.mem_destruction_iff.mp member
  obtain ⟨entity, stands, same, _⟩ := demands.exists_standing
  obtain ⟨live, rfl, _⟩ := consistent.mem_governedAt_iff.mp stands.1
  exact ⟨entity, live, same, rule, by simp, demands.exists_pair⟩

namespace Outcome

variable {outcome : Outcome} {rulebook : Rulebook} {config : Config} {world equipped left : World}
  {ids : List EntityId} {applier after : RuleApplier} {elapsed : Duration} {cell : Cell}
  {entity : Entity} (reachable : world.Reachable)
  (applied : applier.advance world rulebook config elapsed = .ok (outcome, after, equipped))
  (carried : outcome.carryOut equipped = .ok (ids, left))

include reachable applied carried

/-- Whoever is left on a cell where nobody was replaced was there, equipped, and is not listed as
gone. -/
theorem Spares.of_mem (spares : outcome.Spares world cell) (live : entity ∈ left.entities)
    (here : entity.position = cell) : entity ∈ equipped.entities ∧ entity.id ∉ outcome.gone := by
  obtain ⟨rfl, _, asked, _⟩ := RuleApplier.advance_eq_ok applied
  obtain ⟨created, entities, requested, _⟩ := carryOut_eq_ok asked carried
  rw [entities, List.mem_append, List.mem_filter, Bool.not_eq_true', ← Bool.not_eq_true,
    List.contains_iff_mem] at live
  refine live.resolve_right fun new => ?_
  -- Somebody new stands where somebody was replaced.
  have request := List.mem_map_of_mem new (f := Entity.toRequest)
  rw [requested, List.mem_flatMap] at request
  obtain ⟨replacement, listed, spawned⟩ := request
  obtain ⟨old, known, same, turned⟩ := World.of_mem_spawns (asked ▸ listed) spawned
  obtain ⟨_, _, _, _, made⟩ := Rulebook.mem_replacementsOf_iff.mp turned
  have there : entity.position = old.position := (Entity.of_turnedInto? made).1
  obtain ⟨before, stood, rfl⟩ := Rulebook.mem_entities_equip_iff.mp known
  rw [Rulebook.position_equip] at there
  rw [Rulebook.id_equip] at same
  exact spares replacement listed
    (reachable.consistent.mem_stackAt_iff.mpr ⟨before, stood, same, there.symm.trans here⟩)

/-- Whoever is left there carries its due. -/
theorem Spares.equip_eq (spares : outcome.Spares world cell) (live : entity ∈ left.entities)
    (here : entity.position = cell) : rulebook.equip entity = entity := by
  -- It has been equipped once.
  have known := (spares.of_mem reachable applied carried live here).1
  obtain ⟨rfl, _⟩ := RuleApplier.advance_eq_ok applied
  obtain ⟨before, _, rfl⟩ := Rulebook.mem_entities_equip_iff.mp known
  exact rulebook.equip_equip before

/-- Where nobody was replaced, nobody is left next to another whom a rule lets it destroy. -/
theorem Spares.eq_of_destroys (spares : outcome.Spares world cell) {destroyer victim : Entity}
    (one : destroyer ∈ left.governedAt cell) (other : victim ∈ left.governedAt cell)
    {rule : DestructionRule} (listed : rule ∈ config.destruction)
    (destroys : rule.destroys destroyer = true) (harms : rule.harms victim = true) :
    destroyer = victim := by
  have consistent := (reachable_of_applied reachable applied carried).consistent
  obtain ⟨live, here, governed⟩ := consistent.mem_governedAt_iff.mp one
  obtain ⟨live', here', governed'⟩ := consistent.mem_governedAt_iff.mp other
  obtain ⟨known, stays⟩ := spares.of_mem reachable applied carried live here
  obtain ⟨known', stays'⟩ := spares.of_mem reachable applied carried live' here'
  -- Of two that were together when the turn of the rule came, one would be gone.
  by_contra differ
  obtain ⟨rfl, removals, _⟩ := RuleApplier.advance_eq_ok applied
  have equips := (reachable.change (Rulebook.position_equip rulebook)).consistent
  obtain ⟨removal, removed, either⟩ := equips.exists_mem_destruction listed known known' governed
    governed' (here.trans here'.symm) differ destroys harms
  rw [← removals] at removed
  have gone : removal.id ∈ outcome.gone := List.mem_append_left _ (List.mem_map_of_mem removed)
  rcases either with same | same
  · exact stays (same ▸ gone)
  · exact stays' (same ▸ gone)

/-- Where nobody was replaced, equipping changes nobody again, and nobody is destroyed again. -/
theorem Spares.again (spares : outcome.Spares world cell) :
    (left.mapEntities rulebook.equip).occupants cell = left.occupants cell ∧
      ∀ removal ∈ (left.mapEntities rulebook.equip).destruction config.destruction,
        removal.id ∉ left.stackAt cell := by
  have reachable' := reachable_of_applied reachable applied carried
  have consistent := reachable'.consistent
  have consistent' := (reachable'.change (Rulebook.position_equip rulebook)).consistent
  have same : (left.mapEntities rulebook.equip).occupants cell = left.occupants cell := by
    rw [World.occupants_mapEntities rulebook.id_equip]
    refine (List.map_congr_left fun entity stands => ?_).trans (List.map_id _)
    obtain ⟨live, here⟩ := consistent.mem_occupants_iff.mp stands
    exact spares.equip_eq reachable applied carried live here
  refine ⟨same, fun removal member standing => ?_⟩
  obtain ⟨entity, live, name, rule, listed, destroyer, one, victim, other, destroys, harms,
    differ⟩ := consistent'.exists_pair member
  obtain ⟨twin, live', name', here⟩ := consistent.mem_stackAt_iff.mp standing
  -- Whoever is removed stands on the cell, and so do those two.
  have there : entity.position = cell := by
    obtain ⟨before, stood, rfl⟩ := Rulebook.mem_entities_equip_iff.mp live
    rw [Rulebook.id_equip] at name
    rw [Rulebook.position_equip, World.eq_of_id stood live' (name.trans name'.symm), here]
  rw [World.governedAt, there, same] at one other
  exact differ (congrArg Entity.id
    (spares.eq_of_destroys reachable applied carried one other listed destroys harms))

/-- When nobody was replaced at all, the rules ask for nothing again. -/
theorem outcomeOf_eq_idle (none : outcome.replacements = []) (time : Duration) :
    RuleApplier.outcomeOf left rulebook config time = (.idle left time, left) := by
  -- Every cell is one where nobody was replaced.
  have spares (cell : Cell) : outcome.Spares world cell := by
    unfold Spares
    rw [none]
    exact nofun
  have consistent := (reachable_of_applied reachable applied carried).consistent
  have fixed : ∀ entity ∈ left.entities, rulebook.equip entity = entity := fun entity live =>
    (spares entity.position).equip_eq reachable applied carried live rfl
  refine RuleApplier.outcomeOf_eq_idle fixed ?_ ?_ time
  · refine List.eq_nil_iff_forall_not_mem.mpr fun removal member => ?_
    obtain ⟨_, _, entity, live, _, same, _⟩ := World.exists_of_mem_destruction member
    have quiet := ((spares entity.position).again reachable applied carried).2
    rw [World.mapEntities_eq_self fixed] at quiet
    exact quiet removal member (consistent.mem_stackAt_iff.mpr ⟨entity, live, same, rfl⟩)
  · refine World.replacements_eq_nil_iff.mpr fun entity live governed => ?_
    obtain ⟨known, stays⟩ :=
      (spares entity.position).of_mem reachable applied carried live rfl
    -- Whoever has something to turn into would have been replaced.
    by_contra some
    have stands : ∀ removal ∈ outcome.removals, removal.id ≠ entity.id := fun removal member same =>
      stays (List.mem_append_left _ (List.mem_map.mpr ⟨removal, member, same⟩))
    obtain ⟨replacement, listed, _⟩ := World.exists_mem_replacements known governed stands some
    rw [← (RuleApplier.advance_eq_ok applied).2.2.1, none] at listed
    cases listed

end Outcome

namespace World

/-- Whatever world a host can bring about and whatever rules it has, an update that the clock has
room for and that there are identifiers to carry out is enough for the destruction: in a further
update under the same rules nobody is removed and nobody is equipped in any cell where the first one
replaced nobody. If it replaced nobody at all, the further update asks for nothing and leaves the
world as it is. -/
theorem Reachable.advance_once {world : World} (reachable : world.Reachable) (rulebook : Rulebook)
    (config : Config) {applier : RuleApplier} {elapsed clock : Duration}
    (room : applier.clock.add elapsed = .ok clock) :
    ∃ outcome later equipped,
      applier.advance world rulebook config elapsed = .ok (outcome, later, equipped) ∧
      (world.nextId.toNat + Outcome.created outcome.replacements < UInt32.size →
        ∃ ids left, outcome.carryOut equipped = .ok (ids, left) ∧
          ∀ (applier' : RuleApplier) (elapsed' clock' : Duration),
            applier'.clock.add elapsed' = .ok clock' →
            ∃ again later' settled,
              applier'.advance left rulebook config elapsed' = .ok (again, later', settled) ∧
              (∀ cell, outcome.Spares world cell →
                (∀ removal ∈ again.removals, removal.id ∉ left.stackAt cell) ∧
                  settled.occupants cell = left.occupants cell) ∧
              (outcome.replacements = [] →
                again.changesWorld = false ∧ again.stats.equipped = 0 ∧ settled = left)) := by
  -- The further update is written down first, which leaves its two claims.
  obtain ⟨outcome, later, equipped, applied, _⟩ :=
    RuleApplier.exists_advance room world rulebook config
  refine ⟨outcome, later, equipped, applied, fun enough => ?_⟩
  obtain ⟨ids, left, carried, _⟩ := Outcome.carryOut_of_room reachable.consistent applied enough
  refine ⟨ids, left, carried, fun applier' elapsed' clock' room' => ?_⟩
  refine ⟨(RuleApplier.outcomeOf left rulebook config clock').1, ⟨applier'.updateCount + 1, clock'⟩,
    (RuleApplier.outcomeOf left rulebook config clock').2, bind_eq_ok_iff.mpr ⟨clock', room', rfl⟩,
    fun cell spares => ?_, fun none => ?_⟩
  · exact (spares.again reachable applied carried).symm
  · rw [Outcome.outcomeOf_eq_idle reachable applied carried none clock']
    exact ⟨rfl, rfl, rfl⟩

/-- Lava is hot, rocks melt, and walls turn into lava. -/
def moltenWalls : Rulebook :=
  -- The walls are a second source of what destroys rocks.
  .ofStatements [(.lava, .property .hot), (.rock, .property .melt), (.wall, .transform .lava)]

/-- A rock melts on lava. A wall that turns into lava melts another rock in the next update, in
which nothing happens on the first cell. After that the rules ask for nothing. -/
theorem advance_once_melting : ∃ bare ids world first later equipped created left second later'
    settled left' third later'', empty 2 1 = .ok bare ∧
    bare.createAll [.object .lava ⟨0, 0⟩, .object .rock ⟨0, 0⟩, .object .rock ⟨1, 0⟩,
      .object .wall ⟨1, 0⟩] = .ok (ids, world) ∧
    RuleApplier.initial.advance world moltenWalls .standard .zero = .ok (first, later, equipped) ∧
    first.carryOut equipped = .ok (created, left) ∧
    RuleApplier.initial.advance left moltenWalls .standard .zero = .ok (second, later', settled) ∧
    second.carryOut settled = .ok ([], left') ∧
    RuleApplier.initial.advance left' moltenWalls .standard .zero = .ok (third, later'', left') ∧
    first.removals = [⟨⟨1⟩, .melted⟩] ∧ second.removals = [⟨⟨2⟩, .melted⟩] ∧
    settled.occupants ⟨0, 0⟩ = left.occupants ⟨0, 0⟩ ∧ third.changesWorld = false := by
  have known : (do
      let bare ← empty 2 1
      let built ← bare.createAll [.object .lava ⟨0, 0⟩, .object .rock ⟨0, 0⟩, .object .rock ⟨1, 0⟩,
        .object .wall ⟨1, 0⟩]
      let one ← RuleApplier.initial.advance built.2 moltenWalls .standard .zero
      let left ← one.1.carryOut one.2.2
      let two ← RuleApplier.initial.advance left.2 moltenWalls .standard .zero
      let left' ← two.1.carryOut two.2.2
      return (built.2.nextId.toNat, built.2.stackAt ⟨0, 0⟩, one.1.removals, one.1.replacements,
        left.2.nextId.toNat, two.1.removals, two.1.replacements, left'.1) : Except Error _) =
      .ok (4, [⟨0⟩, ⟨1⟩], [⟨⟨1⟩, .melted⟩], [⟨⟨3⟩, [.object .lava ⟨1, 0⟩]⟩], 5,
        [⟨⟨2⟩, .melted⟩], [], []) := by
    cbv
  obtain ⟨bare, empty, known⟩ := bind_eq_ok_iff.mp known
  obtain ⟨⟨ids, world⟩, built, known⟩ := bind_eq_ok_iff.mp known
  obtain ⟨⟨first, later, equipped⟩, applied, known⟩ := bind_eq_ok_iff.mp known
  obtain ⟨⟨created, left⟩, carried, known⟩ := bind_eq_ok_iff.mp known
  obtain ⟨⟨second, later', settled⟩, applied', known⟩ := bind_eq_ok_iff.mp known
  obtain ⟨⟨none, left'⟩, carried', known⟩ := bind_eq_ok_iff.mp known
  simp only [Pure.pure, Except.pure, Except.ok.injEq, Prod.mk.injEq] at known
  obtain ⟨count, stack, removals, replacements, count', removals', replacements', rfl⟩ := known
  have room : RuleApplier.initial.clock.add .zero = .ok .zero := by cbv
  have reachable := (Reachable.empty empty).createAll built
  obtain ⟨_, _, _, same, once⟩ := reachable.advance_once moltenWalls .standard room
  cases applied.symm.trans same
  obtain ⟨_, _, same, once⟩ := once (by rw [count, replacements]; decide)
  cases carried.symm.trans same
  obtain ⟨_, _, _, same, cells, _⟩ := once .initial .zero .zero room
  cases applied'.symm.trans same
  -- The wall that was replaced does not stand on the first cell.
  have spares : first.Spares world ⟨0, 0⟩ := by
    unfold Outcome.Spares
    rw [replacements, stack]
    decide
  -- Nobody is replaced in the second update, so that a third one asks for nothing.
  have reachable' := Outcome.reachable_of_applied reachable applied carried
  obtain ⟨_, _, _, same, once⟩ := reachable'.advance_once moltenWalls .standard room
  cases applied'.symm.trans same
  obtain ⟨_, _, same, once⟩ := once (by rw [count', replacements']; decide)
  cases carried'.symm.trans same
  obtain ⟨third, later'', _, applied'', _, idle⟩ := once .initial .zero .zero room
  obtain ⟨quiet, _, rfl⟩ := idle replacements'
  exact ⟨bare, ids, world, first, later, equipped, created, left, second, later', settled, _, third,
    later'', empty, built, applied, carried, applied', carried', applied'', removals, removals',
    (cells _ spares).2, quiet⟩

end World

end WordTiles
