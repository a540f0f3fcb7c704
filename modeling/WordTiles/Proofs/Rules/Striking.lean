import WordTiles.Proofs.Lists
import WordTiles.Rules.Applier

/-! How one rule of destruction strikes among the entities of one cell: it removes the victims that
stand next to a destroyer and, under some rules, the destroyers that outlive them. -/

namespace WordTiles

variable {rule : DestructionRule} {here : List Entity} {earlier earlier' : List Removal}
  {removal : Removal} {entity : Entity} {cause : RemovalCause}

/-- The entities of a cell that have not been removed. -/
def standing (here : List Entity) (earlier : List Removal) : List Entity :=
  -- A removal for any cause takes the entity out.
  here.filter fun entity => !earlier.any (·.id == entity.id)

/-- The entity is there, and none of the removals is its own. -/
def Entity.Stands (entity : Entity) (here : List Entity) (earlier : List Removal) : Prop :=
  -- The cause does not matter, only whose removal it is.
  entity ∈ here ∧ ∀ cause, ⟨entity.id, cause⟩ ∉ earlier

/-- Nobody who stands has been removed. -/
theorem Entity.Stands.ne (stands : entity.Stands here earlier) (removed : removal ∈ earlier) :
    removal.id ≠ entity.id :=
  -- Having the identifier of a removal is having been removed.
  fun same => stands.2 removal.cause (same ▸ removed)

/-- Some removal is that of an entity. -/
theorem any_id_eq_true_iff {id : EntityId} :
    earlier.any (·.id == id) = true ↔ ∃ cause, ⟨id, cause⟩ ∈ earlier := by
  -- A removal is an identifier and a cause.
  rw [List.any_eq_true]
  constructor
  · rintro ⟨⟨_, cause⟩, listed, same⟩
    cases beq_iff_eq.mp same
    exact ⟨cause, listed⟩
  · exact fun ⟨cause, listed⟩ => ⟨_, listed, beq_iff_eq.mpr rfl⟩

/-- Those who stand are left when those who have been removed are dropped. -/
theorem mem_standing_iff : entity ∈ standing here earlier ↔ entity.Stands here earlier := by
  -- The filter looks for a removal of the same identifier.
  rw [standing, List.mem_filter, Bool.not_eq_true', Bool.eq_false_iff, ne_eq, any_id_eq_true_iff,
    not_exists]
  rfl

/-- Who stands depends on the removals of those who are there alone. -/
theorem standing_congr (agree : ∀ entity ∈ here, ∀ cause,
    (⟨entity.id, cause⟩ : Removal) ∈ earlier ↔ ⟨entity.id, cause⟩ ∈ earlier') :
    standing here earlier = standing here earlier' := by
  -- Only whether somebody has been removed is asked, and not for what cause.
  refine List.filter_congr fun entity listed => congrArg _ (Bool.eq_iff_iff.mpr ?_)
  rw [any_id_eq_true_iff, any_id_eq_true_iff]
  exact exists_congr (agree entity listed)

namespace DestructionRule

/-- The victims of a rule among those who stand. -/
def victims (rule : DestructionRule) (standing : List Entity) : List Entity :=
  -- An entity does not expose itself, however it destroys.
  (standing.filter rule.harms).filter fun victim =>
    (standing.filter rule.destroys).any (·.id != victim.id)

/-- The identifiers of the destroyers that outlive the victims. -/
def outliving (rule : DestructionRule) (standing : List Entity) : List EntityId :=
  -- Identifiers are compared, and each is listed once.
  (((standing.filter rule.destroys).map (·.id)).filter fun id =>
    !(rule.victims standing).any (·.id == id)).eraseDups

/-- A rule that finds a victim removes all of them, and the destroyers that outlive them if it uses
these up. -/
theorem strike_eq : rule.strike here earlier =
    if (rule.victims (standing here earlier)).isEmpty then []
    else
      (rule.victims (standing here earlier)).map (⟨·.id, rule.cause⟩) ++
        if rule.spendsDestroyers then (rule.outliving (standing here earlier)).map (⟨·, .spent⟩)
        else [] :=
  -- The local definitions of the rule are given their names.
  rfl

/-- The rule finds the entity standing, vulnerable and not immune, and finds another one standing
there that destroys. -/
structure Strikes (rule : DestructionRule) (here : List Entity) (earlier : List Removal)
    (victim : Entity) : Prop where
  stands : victim.Stands here earlier
  harmed : rule.harms victim = true
  exposed : ∃ destroyer, destroyer.Stands here earlier ∧ rule.destroys destroyer = true ∧
    destroyer.id ≠ victim.id

/-- The rule uses destroyers up, and finds the entity standing and destroying. It strikes somebody,
but not this entity. -/
structure Spends (rule : DestructionRule) (here : List Entity) (earlier : List Removal)
    (destroyer : Entity) : Prop where
  spending : rule.spendsDestroyers = true
  stands : destroyer.Stands here earlier
  destroys : rule.destroys destroyer = true
  spared : ¬ rule.Strikes here earlier destroyer
  struck : ∃ victim, rule.Strikes here earlier victim

/-- What the rule asks for when its turn comes. -/
inductive Demands (rule : DestructionRule) (here : List Entity) (earlier : List Removal) :
    Removal → Prop where
  | victim {entity : Entity} (struck : rule.Strikes here earlier entity) :
      rule.Demands here earlier ⟨entity.id, rule.cause⟩
  | destroyer {entity : Entity} (spent : rule.Spends here earlier entity) :
      rule.Demands here earlier ⟨entity.id, .spent⟩

/-- Somebody is removed who stands, and whom the rule harms or lets destroy. -/
theorem Demands.exists_standing (demands : rule.Demands here earlier removal) :
    ∃ entity, entity.Stands here earlier ∧ entity.id = removal.id ∧
      (rule.harms entity = true ∨ rule.destroys entity = true) := by
  -- A victim is harmed, and a destroyer destroys.
  cases demands with
  | victim struck => exact ⟨_, struck.stands, rfl, .inl struck.harmed⟩
  | destroyer spent => exact ⟨_, spent.stands, rfl, .inr spent.destroys⟩

/-- The victims are those whom the rule strikes. -/
theorem mem_victims_iff {victim : Entity} :
    victim ∈ rule.victims (standing here earlier) ↔ rule.Strikes here earlier victim := by
  -- The two filters test the three conditions.
  unfold victims
  simp only [List.mem_filter, List.any_eq_true, bne_iff_ne, mem_standing_iff, and_assoc]
  exact ⟨fun ⟨stands, harmed, exposed⟩ => ⟨stands, harmed, exposed⟩,
    fun ⟨stands, harmed, exposed⟩ => ⟨stands, harmed, exposed⟩⟩

/-- A rule strikes somebody when its list of victims is not empty. -/
theorem victims_isEmpty_iff : (rule.victims (standing here earlier)).isEmpty = true ↔
    ¬ ∃ victim, rule.Strikes here earlier victim := by
  -- An empty list is one without a member.
  simp only [List.isEmpty_iff, List.eq_nil_iff_forall_not_mem, mem_victims_iff, not_exists]

/-- The destroyers that outlive the victims have the identifier of none of them. -/
theorem mem_outliving_iff {id : EntityId} : id ∈ rule.outliving (standing here earlier) ↔
    ∃ destroyer, destroyer.Stands here earlier ∧ rule.destroys destroyer = true ∧
      (∀ victim, rule.Strikes here earlier victim → victim.id ≠ destroyer.id) ∧
        destroyer.id = id := by
  -- Listing identifiers once does not change which of them are listed.
  rw [outliving, List.mem_eraseDups, List.mem_filter, List.mem_map, Bool.not_eq_true',
    List.any_eq_false]
  simp only [List.mem_filter, mem_standing_iff, mem_victims_iff, beq_iff_eq]
  constructor
  · rintro ⟨⟨destroyer, ⟨stands, destroys⟩, rfl⟩, spared⟩
    exact ⟨destroyer, stands, destroys, spared, rfl⟩
  · rintro ⟨destroyer, stands, destroys, spared, rfl⟩
    exact ⟨⟨destroyer, ⟨stands, destroys⟩, rfl⟩, spared⟩

/-- A rule asks only for what it demands. -/
theorem demands_of_mem_strike (member : removal ∈ rule.strike here earlier) :
    rule.Demands here earlier removal := by
  rw [strike_eq] at member
  -- Without a victim nobody is removed, not even a destroyer.
  split at member
  · cases member
  · rename_i some
    rcases List.mem_append.mp member with struck | used
    · obtain ⟨victim, listed, rfl⟩ := List.mem_map.mp struck
      exact .victim (mem_victims_iff.mp listed)
    · -- Only some of the rules use their destroyers up.
      split at used
      · obtain ⟨id, listed, rfl⟩ := List.mem_map.mp used
        obtain ⟨destroyer, stands, destroys, spared, rfl⟩ := mem_outliving_iff.mp listed
        exact .destroyer ⟨‹_›, stands, destroys, fun struck => spared destroyer struck rfl,
          not_not.mp (mt victims_isEmpty_iff.mpr some)⟩
      · cases used

/-- A rule asks for the removal of everybody it strikes. -/
theorem Strikes.mem_strike (struck : rule.Strikes here earlier entity) :
    ⟨entity.id, rule.cause⟩ ∈ rule.strike here earlier := by
  -- The entity itself is among the victims, so that there are some.
  rw [strike_eq, if_neg (mt victims_isEmpty_iff.mp (not_not.mpr ⟨entity, struck⟩))]
  exact List.mem_append_left _ (List.mem_map.mpr ⟨entity, mem_victims_iff.mpr struck, rfl⟩)

/-- Among distinct entities it asks for the removal of everybody it uses up as well. -/
theorem Spends.mem_strike (spent : rule.Spends here earlier entity)
    (distinct : (here.map (·.id)).Nodup) :
    ⟨entity.id, .spent⟩ ∈ rule.strike here earlier := by
  rw [strike_eq, if_neg (mt victims_isEmpty_iff.mp (not_not.mpr spent.struck)),
    if_pos spent.spending]
  refine List.mem_append_right _ (List.mem_map.mpr ⟨entity.id, ?_, rfl⟩)
  refine mem_outliving_iff.mpr ⟨entity, spent.stands, spent.destroys, ?_, rfl⟩
  intro victim struck same
  -- A victim with the identifier of the destroyer would be the destroyer.
  cases List.inj_on_of_nodup_map distinct struck.stands.1 spent.stands.1 same
  exact spent.spared struck

/-- Among distinct entities a rule asks for what it demands, and for nothing else. -/
theorem mem_strike_iff (distinct : (here.map (·.id)).Nodup) :
    removal ∈ rule.strike here earlier ↔ rule.Demands here earlier removal := by
  -- That every demand is listed takes distinct entities; the other way does not.
  refine ⟨demands_of_mem_strike, fun demands => ?_⟩
  cases demands with
  | victim struck => exact struck.mem_strike
  | destroyer spent => exact spent.mem_strike distinct

/-- Among distinct entities, a demand is about the one entity that it names. -/
theorem demands_iff (distinct : (here.map (·.id)).Nodup) (listed : entity ∈ here) :
    rule.Demands here earlier ⟨entity.id, cause⟩ ↔
      (rule.Strikes here earlier entity ∧ cause = rule.cause) ∨
        (rule.Spends here earlier entity ∧ cause = .spent) := by
  constructor
  · -- Whoever the demand is about has the identifier of the entity, and so is the entity.
    intro demands
    generalize named : (⟨entity.id, cause⟩ : Removal) = removal at demands
    cases demands with
    | victim struck =>
      obtain ⟨same, rfl⟩ := Removal.mk.inj named
      cases List.inj_on_of_nodup_map distinct listed struck.stands.1 same
      exact .inl ⟨struck, rfl⟩
    | destroyer spent =>
      obtain ⟨same, rfl⟩ := Removal.mk.inj named
      cases List.inj_on_of_nodup_map distinct listed spent.stands.1 same
      exact .inr ⟨spent, rfl⟩
  · rintro (⟨struck, rfl⟩ | ⟨spent, rfl⟩)
    · exact .victim struck
    · exact .destroyer spent

/-- A rule strikes nobody exactly when no destroyer stands with a victim other than itself. -/
theorem strike_eq_nil_iff : rule.strike here [] = [] ↔ ∀ destroyer ∈ here, ∀ victim ∈ here,
    rule.destroys destroyer = true → rule.harms victim = true → destroyer.id = victim.id := by
  have stands {entity : Entity} (listed : entity ∈ here) : entity.Stands here [] :=
    ⟨listed, fun _ => List.not_mem_nil⟩
  constructor
  · intro none destroyer one victim other destroys harms
    by_contra differ
    have struck : rule.Strikes here [] victim :=
      ⟨stands other, harms, destroyer, stands one, destroys, differ⟩
    exact List.not_mem_nil (none ▸ struck.mem_strike)
  · intro none
    -- Whoever was struck would stand next to a destroyer.
    have nobody : ¬ ∃ victim, rule.Strikes here [] victim := by
      rintro ⟨victim, stands, harms, destroyer, one, destroys, differ⟩
      exact differ (none destroyer one.1 victim stands.1 destroys harms)
    rw [strike_eq, if_pos (victims_isEmpty_iff.mpr nobody)]

/-- A rule looks at removals only to see who of the cell has been removed. -/
theorem strike_congr (agree : ∀ entity ∈ here, ∀ cause,
    (⟨entity.id, cause⟩ : Removal) ∈ earlier ↔ ⟨entity.id, cause⟩ ∈ earlier') :
    rule.strike here earlier = rule.strike here earlier' := by
  -- The rule sees the removals through those who stand alone.
  rw [strike_eq, strike_eq, standing_congr agree]

/-- A rule removes nobody twice. -/
theorem nodup_map_strike (distinct : (here.map (·.id)).Nodup) :
    ((rule.strike here earlier).map (·.id)).Nodup := by
  rw [strike_eq]
  split
  · exact .nil
  · rw [List.map_append, List.map_map]
    refine List.nodup_append.mpr ⟨?_, ?_, ?_⟩
    · -- The victims stand in the order of the cell.
      refine distinct.sublist (List.Sublist.map _ ?_)
      exact (List.filter_sublist.trans List.filter_sublist).trans List.filter_sublist
    · split
      · rw [List.map_map]
        exact (List.map_id _).symm ▸ nodup_eraseDups _
      · exact .nil
    · -- A destroyer that is a victim as well does not outlive the victims.
      rintro id struck other used rfl
      split at used
      · obtain ⟨_, listed, rfl⟩ := List.mem_map.mp used
        obtain ⟨_, spent, rfl⟩ := List.mem_map.mp listed
        obtain ⟨destroyer, _, _, spared, named⟩ := mem_outliving_iff.mp spent
        obtain ⟨victim, listed, same⟩ := List.mem_map.mp struck
        exact spared victim (mem_victims_iff.mp listed) (same.trans named.symm)
      · cases used

/-- A rule removes nobody twice, and nobody who has been removed before. -/
theorem nodup_strike (distinct : (here.map (·.id)).Nodup) (once : (earlier.map (·.id)).Nodup) :
    ((earlier ++ rule.strike here earlier).map (·.id)).Nodup := by
  rw [List.map_append]
  refine List.nodup_append.mpr ⟨once, rule.nodup_map_strike distinct, ?_⟩
  -- Only those who still stand are removed.
  rintro id before other struck rfl
  obtain ⟨removed, listed, rfl⟩ := List.mem_map.mp before
  obtain ⟨removal, struck, same⟩ := List.mem_map.mp struck
  obtain ⟨entity, stands, named, _⟩ := (demands_of_mem_strike struck).exists_standing
  exact stands.ne listed (same.symm.trans named.symm)

end DestructionRule

end WordTiles
