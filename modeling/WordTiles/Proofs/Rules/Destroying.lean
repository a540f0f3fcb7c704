import WordTiles.Proofs.Rules.Applying

/-! Who is destroyed: destroyers and victims alone, and so many of them that no destroyer is left
next to a victim. -/

namespace WordTiles

variable {rules : List DestructionRule} {here : List Entity} {earlier : List Removal}
  {removal : Removal}

/-- What has been removed before the rules strike in a cell stays removed. -/
theorem subset_destructionAt : earlier ⊆ destructionAt rules here earlier := by
  -- Every rule only appends.
  unfold destructionAt
  induction rules generalizing earlier with
  | nil => exact fun _ member => member
  | cons first rest ih => exact List.Subset.trans (List.subset_append_left _ _) ih

/-- In a cell nobody is removed twice. -/
theorem nodup_destructionAt (distinct : (here.map (·.id)).Nodup)
    (once : (earlier.map (·.id)).Nodup) :
    ((destructionAt rules here earlier).map (·.id)).Nodup := by
  -- Each rule strikes only those who stand, and so nobody whom a rule before it removed.
  unfold destructionAt
  induction rules generalizing earlier with
  | nil => exact once
  | cons first rest ih => exact ih (first.nodup_strike distinct once)

/-- Each removal of a cell is asked for by some rule, when the rules before it have struck. -/
theorem mem_destructionAt_iff : removal ∈ destructionAt rules here earlier ↔
    removal ∈ earlier ∨ ∃ before rule after, rules = before ++ rule :: after ∧
      removal ∈ rule.strike here (destructionAt before here earlier) := by
  -- The first rule strikes first, and the others find what it has removed.
  induction rules generalizing earlier with
  | nil => simp [destructionAt]
  | cons first rest ih =>
    change removal ∈ destructionAt rest here (earlier ++ first.strike here earlier) ↔ _
    rw [ih, List.mem_append, or_assoc]
    refine or_congr_right ⟨?_, ?_⟩
    · rintro (struck | ⟨before, rule, after, rfl, struck⟩)
      · exact ⟨[], first, rest, rfl, struck⟩
      · exact ⟨first :: before, rule, after, rfl, struck⟩
    · rintro ⟨before, rule, after, split, struck⟩
      cases before with
      | nil =>
        cases split
        exact .inl struck
      | cons head before =>
        cases split
        exact .inr ⟨before, rule, after, rfl, struck⟩

/-- In a cell only those are removed that some rule harms or lets destroy. -/
theorem exists_of_mem_destructionAt (member : removal ∈ destructionAt rules here earlier) :
    removal ∈ earlier ∨ ∃ rule ∈ rules, ∃ entity ∈ here, entity.id = removal.id ∧
      (rule.harms entity = true ∨ rule.destroys entity = true) := by
  -- Each removal is demanded by a rule, of somebody who stands in the cell.
  refine (mem_destructionAt_iff.mp member).imp_right ?_
  rintro ⟨before, rule, after, rfl, struck⟩
  obtain ⟨entity, stands, known, either⟩ :=
    (DestructionRule.demands_of_mem_strike struck).exists_standing
  exact ⟨rule, by simp, entity, stands.1, known, either⟩

/-- In a cell no destroyer is left next to a victim. -/
theorem exists_mem_destructionAt {rule : DestructionRule} (listed : rule ∈ rules)
    {destroyer victim : Entity} (one : destroyer ∈ here) (other : victim ∈ here)
    (differ : destroyer.id ≠ victim.id) (destroys : rule.destroys destroyer = true)
    (harms : rule.harms victim = true) :
    ∃ removal ∈ destructionAt rules here earlier,
      removal.id = destroyer.id ∨ removal.id = victim.id := by
  -- When the turn comes to the rule, both are standing, or one of them has been removed by then.
  unfold destructionAt
  induction rules generalizing earlier with
  | nil => cases listed
  | cons first rest ih =>
    rcases List.mem_cons.mp listed with rfl | later
    · have kept : earlier ++ rule.strike here earlier ⊆
          destructionAt rest here (earlier ++ rule.strike here earlier) := subset_destructionAt
      by_cases gone : ∃ removal ∈ earlier, removal.id = destroyer.id ∨ removal.id = victim.id
      · obtain ⟨removal, member, either⟩ := gone
        exact ⟨removal, kept (List.mem_append_left _ member), either⟩
      · have struck : rule.Strikes here earlier victim :=
          { stands := ⟨other, fun cause member => gone ⟨_, member, .inr rfl⟩⟩
            harmed := harms
            exposed := ⟨destroyer, ⟨one, fun cause member => gone ⟨_, member, .inl rfl⟩⟩,
              destroys, differ⟩ }
        exact ⟨_, kept (List.mem_append_right _ struck.mem_strike), .inr rfl⟩
    · exact ih later

namespace World

variable {world : World}

/-- Cell by cell, what has been removed stays removed. -/
theorem subset_foldl_destructionAt {cells : List Cell} {occupants : Cell → List Entity} :
    earlier ⊆ cells.foldl (fun removals cell => destructionAt rules (occupants cell) removals)
      earlier := by
  -- Every cell only appends.
  induction cells generalizing earlier with
  | nil => exact fun _ member => member
  | cons first rest ih => exact List.Subset.trans subset_destructionAt ih

/-- Only governed entities are removed that some rule harms or lets destroy. -/
theorem exists_of_mem_destruction (member : removal ∈ world.destruction rules) :
    ∃ rule ∈ rules, ∃ entity ∈ world.entities, entity.isGoverned = true ∧
      entity.id = removal.id ∧ (rule.harms entity = true ∨ rule.destroys entity = true) := by
  -- Each removal was asked for in some cell.
  have general (cells : List Cell) (earlier : List Removal)
      (member : removal ∈ cells.foldl (fun removals cell => destructionAt rules
        ((world.occupants cell).filter (·.isGoverned)) removals) earlier) :
      removal ∈ earlier ∨ ∃ cell, ∃ rule ∈ rules,
        ∃ entity ∈ (world.occupants cell).filter (·.isGoverned), entity.id = removal.id ∧
          (rule.harms entity = true ∨ rule.destroys entity = true) := by
    induction cells generalizing earlier with
    | nil => exact .inl member
    | cons first rest ih =>
      rcases ih _ member with before | found
      · exact (exists_of_mem_destructionAt before).imp_right fun found => ⟨first, found⟩
      · exact .inr found
  obtain ⟨cell, rule, listed, entity, standing, same, either⟩ :=
    (general world.occupied [] member).resolve_left List.not_mem_nil
  obtain ⟨occupies, governed⟩ := List.mem_filter.mp standing
  obtain ⟨id, _, found⟩ := List.mem_filterMap.mp occupies
  exact ⟨rule, listed, entity, (find?_eq_some_iff.mp found).1, governed, same, either⟩

/-- Of a destroyer and a victim on one cell at least one is removed. -/
theorem Consistent.exists_mem_destruction (consistent : world.Consistent)
    {rule : DestructionRule} (listed : rule ∈ rules) {destroyer victim : Entity}
    (live : destroyer ∈ world.entities) (live' : victim ∈ world.entities)
    (governed : destroyer.isGoverned = true) (governed' : victim.isGoverned = true)
    (together : destroyer.position = victim.position) (differ : destroyer ≠ victim)
    (destroys : rule.destroys destroyer = true) (harms : rule.harms victim = true) :
    ∃ removal ∈ world.destruction rules,
      removal.id = destroyer.id ∨ removal.id = victim.id := by
  have one : destroyer ∈ (world.occupants victim.position).filter (·.isGoverned) :=
    List.mem_filter.mpr ⟨consistent.mem_occupants_iff.mpr ⟨live, together⟩, governed⟩
  have other : victim ∈ (world.occupants victim.position).filter (·.isGoverned) :=
    List.mem_filter.mpr ⟨consistent.mem_occupants_iff.mpr ⟨live', rfl⟩, governed'⟩
  -- Their cell is occupied, so its turn comes, and what it adds is never taken back.
  have turn : victim.position ∈ world.occupied := mem_occupied_iff.mpr ⟨victim, live', rfl⟩
  obtain ⟨before, after, cells⟩ := List.append_of_mem turn
  obtain ⟨removal, struck, either⟩ := exists_mem_destructionAt listed one other
    (fun same => differ (eq_of_id live live' same)) destroys harms
  refine ⟨removal, ?_, either⟩
  unfold destruction
  rw [cells, List.foldl_append, List.foldl_cons]
  exact subset_foldl_destructionAt struck

/-- No two occupants of a cell have the same identifier. -/
theorem Consistent.nodup_occupants (consistent : world.Consistent) (cell : Cell) :
    ((world.occupants cell).map (·.id)).Nodup := by
  -- Each identifier of the stack finds the entity that has it.
  refine (consistent.nodup_stackAt cell).sublist ?_
  have named : (world.occupants cell).map (·.id) =
      (world.stackAt cell).filter fun id => (world.find? id).isSome := by
    unfold occupants
    induction world.stackAt cell with
    | nil => rfl
    | cons id rest ih =>
      cases found : world.find? id with
      | none => simp [found, ih]
      | some entity => simp [found, ih, (find?_eq_some_iff.mp found).2]
  rw [named]
  exact List.filter_sublist

/-- In a world nobody is removed twice. -/
theorem Consistent.nodup_destruction (consistent : world.Consistent) :
    ((world.destruction rules).map (·.id)).Nodup := by
  -- From cell to cell, whoever has been removed is not removed again.
  have general (cells : List Cell) (earlier : List Removal) (once : (earlier.map (·.id)).Nodup) :
      ((cells.foldl (fun removals cell => destructionAt rules
        ((world.occupants cell).filter (·.isGoverned)) removals) earlier).map (·.id)).Nodup := by
    induction cells generalizing earlier with
    | nil => exact once
    | cons first rest ih =>
      refine ih _ (nodup_destructionAt ?_ once)
      exact (consistent.nodup_occupants first).sublist (List.filter_sublist.map _)
  exact general world.occupied [] .nil

end World

/-- Carrying out what rules ask for takes away governed entities alone, and brings nobody else. -/
theorem Outcome.filter_carryOut_of_exempt {outcome : Outcome} {world after : World}
    {ids : List EntityId} {rulebook : Rulebook} {test : Entity → Bool}
    (exempt : ∀ entity : Entity, entity.isGoverned = true → test entity = false)
    (removals : outcome.removals = world.destruction rules)
    (replacements : outcome.replacements = world.replacements rulebook outcome.removals)
    (carried : outcome.carryOut world = .ok (ids, after)) :
    after.entities.filter test = world.entities.filter test := by
  -- Whoever goes is governed, and so is whoever comes.
  refine filter_carryOut ?_ ?_ ?_ carried
  · intro removal member entity live same
    rw [removals] at member
    obtain ⟨_, _, other, known, governed, named, _⟩ := World.exists_of_mem_destruction member
    rw [World.eq_of_id live known (same.trans named.symm)]
    exact exempt other governed
  · intro replacement member entity live same
    rw [replacements] at member
    obtain ⟨other, known, governed, named, _⟩ := World.of_mem_replacements member
    rw [World.eq_of_id live known (same.trans named.symm)]
    exact exempt other governed
  · intro replacement member entity new
    rw [replacements] at member
    obtain ⟨_, _, _, new⟩ := World.of_mem_spawns member new
    obtain ⟨_, _, _, _, made⟩ := Rulebook.mem_replacementsOf_iff.mp new
    exact exempt entity (Entity.isGoverned_iff.mpr (Entity.of_turnedInto? made).2.2.1)

end WordTiles
