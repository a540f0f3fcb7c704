import WordTiles.Proofs.Rules.Equipping
import WordTiles.Proofs.Rules.Listening
import WordTiles.Proofs.Rules.Totality

/-! Nobody is granted anything else than before without being reported: a reading lists everybody to
whom an application of its rules is going to write. -/

namespace WordTiles

namespace RuleChange

/-- The change is that of the goal category, or some category is no longer or newly associated with
a terminal one. -/
def ConcernsGoal (change : RuleChange) (config : Config) : Prop :=
  -- A category that turns into something terminal is marked instead of turned.
  change.category = config.goal ∨ ∃ target, target.isTerminal = true ∧
    (target ∈ change.added.transforms ∨ target ∈ change.removed.transforms)

/-- The change is that of the player category, or some category no longer or newly turns into it. -/
def ConcernsPlayer (change : RuleChange) (config : Config) : Prop :=
  -- It may turn into the player, or may have done so until now.
  change.category = config.player ∨
    config.player ∈ change.added.transforms ∨ config.player ∈ change.removed.transforms

end RuleChange

/-- What a reading reports is what becomes of the entities when its rules are applied to the world
that was read. Whoever is written to is listed, and so is whoever gains or loses the goal marker,
and whoever of the player category is written to. Only entities of a changed category are listed, in
order, and nothing is reported of the goal or of the player if no change concerns them. -/
structure Reading.Reports (reading : Reading) (config : Config) (world equipped : World) :
    Prop where
  rewritten : ∀ before ∈ world.entities, ∀ after ∈ equipped.entities, after.id = before.id →
    after ≠ before → before.id ∈ reading.affected
  goal : ∀ before ∈ world.entities, ∀ after ∈ equipped.entities, after.id = before.id →
    after.properties.contains Properties.goal ≠ before.properties.contains Properties.goal →
      ∃ ids, reading.goalAffected = some ids ∧ before.id ∈ ids
  player : ∀ before ∈ world.entities, ∀ after ∈ equipped.entities, after.id = before.id →
    after ≠ before → before.category = config.player →
      ∃ ids, reading.playerAffected = some ids ∧ before.id ∈ ids
  ascending : reading.affected.Pairwise (· < ·)
  affected : ∀ id, id ∈ reading.affected ↔
    ∃ entity ∈ world.entities, entity.id = id ∧ entity.isGoverned = true ∧
      ∃ change ∈ reading.changes, change.category = entity.category ∧ change.isNone = false
  goalSilent : reading.goalAffected = none ↔
    ∀ change ∈ reading.changes, ¬ change.ConcernsGoal config
  playerSilent : reading.playerAffected = none ↔
    ∀ change ∈ reading.changes, ¬ change.ConcernsPlayer config

namespace RuleChange

variable {changes : List RuleChange} {change : RuleChange} {config : Config} {world : World}
  {relevant : RuleChange → Bool} {category : Category} {entity : Entity}

/-- The reader looks for the changes that concern the goal. -/
theorem concernsGoal_iff :
    (change.category == config.goal || change.reachesTerminal) = true ↔
      change.ConcernsGoal config := by
  -- The test asks for a terminal target on either side, which is one target on some side.
  unfold ConcernsGoal reachesTerminal Grants.reachesTerminal
  rw [Bool.or_eq_true, Bool.or_eq_true, beq_iff_eq, List.any_eq_true, List.any_eq_true, ← exists_or]
  refine or_congr_right (exists_congr fun target => ?_)
  rw [← or_and_right, and_comm]
  rfl

/-- It looks for those that concern the player as well. -/
theorem concernsPlayer_iff :
    (change.category == config.player || change.mentionsTarget config.player) = true ↔
      change.ConcernsPlayer config := by
  -- Both sides are the same three questions.
  unfold ConcernsPlayer mentionsTarget
  rw [Bool.or_eq_true, Bool.or_eq_true, beq_iff_eq, decide_eq_true_eq, decide_eq_true_eq]

/-- Nobody is reported exactly if no change is of the kind. -/
theorem concerned_eq_none_iff :
    concerned changes world relevant category = none ↔
      ∀ change ∈ changes, relevant change = false := by
  -- There is nothing to report when no change is left after the filter.
  unfold concerned
  dsimp only
  split
  · rename_i none
    simpa [List.filter_eq_nil_iff] using none
  · rename_i some
    simpa [List.filter_eq_nil_iff] using some

/-- Whoever is of a category that has a change of the kind is reported. -/
theorem exists_concerned (listed : change ∈ changes) (fires : relevant change = true)
    (live : entity ∈ world.entities) (governed : entity.isGoverned = true)
    (about : change.category = entity.category) :
    ∃ ids, concerned changes world relevant category = some ids ∧ entity.id ∈ ids := by
  -- The one change is enough for a report, and it puts its whole category on the list.
  have fired : change ∈ changes.filter relevant := List.mem_filter.mpr ⟨listed, fires⟩
  unfold concerned
  dsimp only
  rw [if_neg fun none => List.not_mem_nil (List.isEmpty_iff.mp none ▸ fired)]
  refine ⟨_, rfl, List.mem_map_of_mem (List.mem_filter.mpr ⟨live, ?_⟩)⟩
  rw [governed, Bool.true_and, Bool.or_eq_true, List.any_eq_true]
  exact .inr ⟨change, fired, beq_iff_eq.mpr about⟩

end RuleChange

namespace Rulebook

variable {old new : Rulebook} {before after : Entity} {world : World} {config : Config}

/-- An equipped entity is the one that had its identifier, equipped. -/
theorem eq_equip_of_id (live : before ∈ world.entities)
    (stays : after ∈ (world.mapEntities new.equip).entities) (same : after.id = before.id) :
    after = new.equip before := by
  -- Identifiers are kept, and they belong to one entity each.
  obtain ⟨other, known, rfl⟩ := mem_entities_equip_iff.mp stays
  rw [id_equip] at same
  rw [World.eq_of_id known live same]

/-- Whoever carries what was due and is written to is of a category that has a change. -/
theorem exists_change_of_equip_ne
    (carried : before.isGoverned = true → before.carried = old.due before.category)
    (differ : new.equip before ≠ before) :
    before.isGoverned = true ∧ ∃ change ∈ old.changesTo new, change.category = before.category := by
  -- Were the grants the same, so would be what is due.
  obtain ⟨governed, other⟩ := equip_ne_iff.mp differ
  refine ⟨governed, exists_change_of_ne fun same => other ?_⟩
  rw [carried governed, due_eq, due_eq, same]

/-- If phrases have the entity gain or lose the goal marker, that change concerns the goal. -/
theorem exists_change_of_marker {phrases phrases' : List Phrase}
    (carried : before.isGoverned = true →
      before.carried = (ofPhrases phrases).due before.category)
    (differ : ((ofPhrases phrases').equip before).properties.contains Properties.goal ≠
      before.properties.contains Properties.goal) :
    before.isGoverned = true ∧ ∃ change ∈ (ofPhrases phrases).changesTo (ofPhrases phrases'),
      change.category = before.category ∧ change.ConcernsGoal config := by
  obtain ⟨governed, change, listed, about⟩ := exists_change_of_equip_ne carried
    fun same => differ (by rw [same])
  refine ⟨governed, change, listed, about, .inr ⟨.goal, rfl, ?_⟩⟩
  obtain ⟨_, added, removed⟩ := mem_changesTo_iff.mp listed
  -- The marker is there exactly if the goal is a target, before as well as afterwards.
  have marked := (Prod.mk.inj ((carried governed).trans (due_eq _ _))).1
  rw [(equip_of_isGoverned governed).1, marked, ne_eq, Bool.eq_iff_iff,
    contains_goal_carriedProperties, contains_goal_carriedProperties, ← about] at differ
  rw [added, removed]
  change _ ∈ _ \ _ ∨ _ ∈ _ \ _
  rw [CategorySet.mem_diff, CategorySet.mem_diff]
  tauto

end Rulebook

namespace RuleReader

variable {reader after : RuleReader} {world equipped : World} {config : Config} {elapsed : Duration}
  {reading : Reading}

/-- A reading lists those of the changed categories, and those whom changes of the goal and of the
player concern. -/
theorem readingOf_lists {findings : Findings} {time : Duration}
    (reported : reader.readingOf world config findings time = .ok reading) :
    reading.affected = (world.entities.filter fun entity => entity.isGoverned &&
        reading.changes.any (·.category == entity.category)).map (·.id) ∧
      reading.goalAffected = RuleChange.concerned reading.changes world
        (fun change => change.category == config.goal || change.reachesTerminal) config.goal ∧
      reading.playerAffected = RuleChange.concerned reading.changes world
        (fun change => change.category == config.player || change.mentionsTarget config.player)
        config.player := by
  -- The cell of a new phrase, which alone can be missing, has no say in them.
  unfold readingOf at reported
  dsimp only at reported
  split at reported
  · obtain ⟨_, _, reported⟩ := bind_eq_ok_iff.mp reported
    cases reported
    exact ⟨rfl, rfl, rfl⟩
  · cases reported
    exact ⟨rfl, rfl, rfl⟩

/-- Whoever is listed is of a category with a change, and no change is empty. -/
theorem mem_affected_iff {findings : Findings} {time : Duration}
    (reported : reader.readingOf world config findings time = .ok reading) {id : EntityId} :
    id ∈ reading.affected ↔ ∃ entity ∈ world.entities, entity.id = id ∧ entity.isGoverned = true ∧
      ∃ change ∈ reading.changes, change.category = entity.category ∧ change.isNone = false := by
  -- A change that is listed is never empty, so that asking for this takes nothing away.
  obtain ⟨_, changes, _⟩ := readingOf_eq_ok reported
  have some : ∀ change ∈ reading.changes, change.isNone = false := fun change member =>
    (Rulebook.mem_changesTo_iff.mp (changes ▸ member)).1
  rw [(readingOf_lists reported).1, List.mem_map]
  simp only [List.mem_filter, Bool.and_eq_true, List.any_eq_true, beq_iff_eq]
  constructor
  · rintro ⟨entity, ⟨live, governed, change, member, about⟩, rfl⟩
    exact ⟨entity, live, rfl, governed, change, member, about, some change member⟩
  · rintro ⟨entity, live, rfl, governed, change, member, about, _⟩
    exact ⟨entity, ⟨live, governed, change, member, about⟩, rfl⟩

/-- A reading reports what becomes of entities that carry what the reader knew to be their due. -/
theorem reports_of_advance {applier later : RuleApplier} {elapsed' : Duration} {outcome : Outcome}
    (inStep : reader.InStep) (stale : reader.isStale = true)
    (carried : ∀ entity ∈ world.entities, entity.isGoverned = true →
      entity.carried = reader.rulebook.due entity.category)
    (read : reader.advance world config elapsed = .ok (reading, after))
    (applied : applier.advance world after.rulebook config elapsed' =
      .ok (outcome, later, equipped)) : reading.Reports config world equipped := by
  obtain ⟨findings, _, _, same, reported⟩ := advance_eq_of_stale stale read
  obtain ⟨_, changes, _⟩ := readingOf_eq_ok reported
  obtain ⟨affected, goal, player⟩ := readingOf_lists reported
  have rules : after.rulebook = .ofPhrases findings.phrases := by rw [same]
  obtain ⟨rfl, _⟩ := RuleApplier.advance_eq_ok applied
  rw [rules]
  rw [inStep.rulebook] at carried changes
  -- Whoever is written to is of a category with a change.
  have changed : ∀ before ∈ world.entities,
      ∀ after ∈ (world.mapEntities (Rulebook.ofPhrases findings.phrases).equip).entities,
        after.id = before.id → after ≠ before → before.isGoverned = true ∧
          ∃ change ∈ reading.changes, change.category = before.category := by
    intro before live after stays same differ
    rw [Rulebook.eq_equip_of_id live stays same] at differ
    rw [changes]
    exact Rulebook.exists_change_of_equip_ne (carried before live) differ
  exact
    { rewritten := by
        intro before live after stays same differ
        obtain ⟨governed, change, member, about⟩ := changed before live after stays same differ
        have some := (Rulebook.mem_changesTo_iff.mp (changes ▸ member)).1
        exact (mem_affected_iff reported).mpr
          ⟨before, live, rfl, governed, change, member, about, some⟩
      goal := by
        intro before live after stays same differ
        rw [Rulebook.eq_equip_of_id live stays same] at differ
        obtain ⟨governed, change, member, about, concerns⟩ :=
          Rulebook.exists_change_of_marker (carried before live) differ
        rw [goal]
        exact RuleChange.exists_concerned (changes ▸ member)
          (RuleChange.concernsGoal_iff.mpr concerns) live governed about
      player := by
        intro before live after stays same differ plays
        obtain ⟨governed, change, member, about⟩ := changed before live after stays same differ
        have concerns : change.ConcernsPlayer config := .inl (about.trans plays)
        rw [player]
        exact RuleChange.exists_concerned member (RuleChange.concernsPlayer_iff.mpr concerns) live
          governed about
      ascending := by
        -- Entities are listed as the world lists them.
        rw [affected]
        exact List.pairwise_map.mpr (world.ascending.filter _)
      affected := fun id => mem_affected_iff reported
      goalSilent := by
        rw [goal, RuleChange.concerned_eq_none_iff]
        refine forall₂_congr fun change _ => ?_
        rw [← Bool.not_eq_true, RuleChange.concernsGoal_iff]
      playerSilent := by
        rw [player, RuleChange.concerned_eq_none_iff]
        refine forall₂_congr fun change _ => ?_
        rw [← Bool.not_eq_true, RuleChange.concernsPlayer_iff] }

/-- A stale reader is given whose rulebook is that of its findings, as every run leaves it. On
whatever world all governed entities carry what is their due under its rules, the next reading
reports what becomes of them when the new rules are applied. On a world that a host can bring about,
both the reading and the application succeed while the clocks run. -/
theorem advance_reports (inStep : reader.InStep) (stale : reader.isStale = true)
    (carried : ∀ entity ∈ world.entities, entity.isGoverned = true →
      entity.carried = reader.rulebook.due entity.category) (config : Config) :
    (∀ (elapsed elapsed' : Duration) (reading : Reading) (after : RuleReader)
        (applier later : RuleApplier) (outcome : Outcome) (equipped : World),
      reader.advance world config elapsed = .ok (reading, after) →
      applier.advance world after.rulebook config elapsed' = .ok (outcome, later, equipped) →
        reading.Reports config world equipped) ∧
    (world.Reachable → ∀ (applier : RuleApplier) (elapsed elapsed' clock clock' : Duration),
      reader.clock.add elapsed = .ok clock → applier.clock.add elapsed' = .ok clock' →
        ∃ reading after outcome later equipped,
          reader.advance world config elapsed = .ok (reading, after) ∧
          applier.advance world after.rulebook config elapsed' =
            .ok (outcome, later, equipped)) := by
  -- The first half follows from any two successful steps, and the second half gives them.
  constructor
  · intro elapsed elapsed' reading after applier later outcome equipped read applied
    exact reports_of_advance inStep stale carried read applied
  · intro reachable applier elapsed elapsed' clock clock' reads applies
    obtain ⟨⟨reading, after⟩, read⟩ :=
      (reader.advance_total reachable.consistent config elapsed).resolve_right
        (by rw [reads]; exact nofun)
    obtain ⟨outcome, later, equipped, applied, _⟩ :=
      RuleApplier.exists_advance applies world after.rulebook config
    exact ⟨reading, after, outcome, later, equipped, read, applied⟩

/-- When the last word of BLUE IS GOAL is taken away, the blue object loses the marker and is
listed, and of the goal it is reported with the object of the goal category. The player, who is
still red, is not mentioned. -/
theorem advance_reports_blue : ∃ bare ids world reading reader outcome applier equipped reading'
    reader' outcome' applier' equipped', World.empty 3 3 = .ok bare ∧
    bare.createAll [.tile .blue ⟨0, 0⟩, .tile .is ⟨1, 0⟩, .tile .goal ⟨2, 0⟩, .tile .i ⟨0, 2⟩,
      .tile .am ⟨1, 2⟩, .tile .red ⟨2, 2⟩, .object .blue ⟨0, 1⟩, .object .goal ⟨1, 1⟩,
      .object .i ⟨2, 1⟩] = .ok (ids, world) ∧
    initial.advance world .standard .zero = .ok (reading, reader) ∧
    RuleApplier.initial.advance world reader.rulebook .standard .zero =
      .ok (outcome, applier, equipped) ∧
    reader.signal.advance (equipped.erase ⟨2⟩) .standard .zero = .ok (reading', reader') ∧
    applier.advance (equipped.erase ⟨2⟩) reader'.rulebook .standard .zero =
      .ok (outcome', applier', equipped') ∧
    reading'.affected = [⟨6⟩] ∧ reading'.goalAffected = some [⟨6⟩, ⟨7⟩] ∧
    reading'.playerAffected = none ∧
    reading'.Reports .standard (equipped.erase ⟨2⟩) equipped' := by
  -- Evaluated in one piece, so that the world is built only once.
  have known : (do
      let bare ← World.empty 3 3
      let built ← bare.createAll [.tile .blue ⟨0, 0⟩, .tile .is ⟨1, 0⟩, .tile .goal ⟨2, 0⟩,
        .tile .i ⟨0, 2⟩, .tile .am ⟨1, 2⟩, .tile .red ⟨2, 2⟩, .object .blue ⟨0, 1⟩,
        .object .goal ⟨1, 1⟩, .object .i ⟨2, 1⟩]
      let read ← initial.advance built.2 .standard .zero
      let applied ← RuleApplier.initial.advance built.2 read.2.rulebook .standard .zero
      let read' ← read.2.signal.advance (applied.2.2.erase ⟨2⟩) .standard .zero
      let _ ← applied.2.1.advance (applied.2.2.erase ⟨2⟩) read'.2.rulebook .standard .zero
      return ((applied.2.2.erase ⟨2⟩).entities.all fun entity => !entity.isGoverned ||
          entity.carried == read.2.rulebook.due entity.category, read'.1.affected,
        read'.1.goalAffected, read'.1.playerAffected) : Except Error _) =
        .ok (true, [⟨6⟩], some [⟨6⟩, ⟨7⟩], none) := by
    cbv
  obtain ⟨bare, empty, known⟩ := bind_eq_ok_iff.mp known
  obtain ⟨⟨ids, world⟩, created, known⟩ := bind_eq_ok_iff.mp known
  obtain ⟨⟨reading, reader⟩, read, known⟩ := bind_eq_ok_iff.mp known
  obtain ⟨⟨outcome, applier, equipped⟩, applied, known⟩ := bind_eq_ok_iff.mp known
  obtain ⟨⟨reading', reader'⟩, read', known⟩ := bind_eq_ok_iff.mp known
  obtain ⟨⟨outcome', applier', equipped'⟩, applied', known⟩ := bind_eq_ok_iff.mp known
  simp only [Pure.pure, Except.pure, Except.ok.injEq, Prod.mk.injEq] at known
  obtain ⟨due, affected, goal, player⟩ := known
  have carried : ∀ entity ∈ (equipped.erase ⟨2⟩).entities, entity.isGoverned = true →
      entity.carried = reader.signal.rulebook.due entity.category := by
    intro entity live governed
    have holds := List.all_eq_true.mp due entity live
    rwa [governed, Bool.not_true, Bool.false_or, beq_iff_eq] at holds
  have inStep := (inStep_initial.advance read).signal
  have reports := (advance_reports inStep rfl carried .standard).1 _ _ _ _ _ _ _ _ read' applied'
  exact ⟨bare, ids, world, reading, reader, outcome, applier, equipped, reading', reader', outcome',
    applier', equipped', empty, created, read, applied, read', applied', affected, goal, player,
    reports⟩

end RuleReader

end WordTiles
