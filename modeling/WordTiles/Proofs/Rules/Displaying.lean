import WordTiles.Proofs.Rules.Changes
import WordTiles.Proofs.Rules.Destroying
import WordTiles.Proofs.Rules.Indicators
import WordTiles.Proofs.Rules.Resting
import WordTiles.Proofs.Rules.Sites

/-! Indicators display the rules: however a host changes the rest of the world between ticks, there
is one indicator for each transform in force, where the first predicate states it. -/

namespace WordTiles

/-- The cells on which indicators of a transform stand. -/
def World.sites (world : World) (indicator : Indicator) : List Cell :=
  -- A cell is listed once for every indicator of the transform on it.
  (world.entities.filter (·.indicator == some indicator)).map (·.position)

/-- Each transform that some phrases state has one indicator, on the cell where it belongs, and
there is no other indicator. -/
def World.Displays (world : World) (phrases : List Phrase) : Prop :=
  -- An option has one member or none, and so has the list of sites.
  ∀ indicator, world.sites indicator = (siteOf phrases indicator).toList

namespace World

variable {world after : World} {phrases : List Phrase} {changes : List RuleChange}
  {indicator : Indicator}

/-- An indicator stands on a cell when some entity with it does. -/
theorem mem_sites_iff {cell : Cell} : cell ∈ world.sites indicator ↔
    ∃ entity ∈ world.entities, entity.indicator = some indicator ∧ entity.position = cell := by
  -- The entities are filtered by what they show.
  simp [sites, and_assoc]

/-- The indicators of a transform that need not leave are those on its site, if the transform was
not lost. -/
theorem sites_staying :
    ((world.entities.filter (!·.mustLeave phrases changes)).filter
      (·.indicator == some indicator)).map (·.position) =
        (world.sites indicator).filter fun cell =>
          !((RuleChange.lost changes).contains indicator ||
            (siteOf phrases indicator).any (· != cell)) := by
  -- Both tests look at the transform and at the cell alone.
  unfold sites
  rw [List.filter_comm, List.filter_map]
  refine congrArg (List.map _) (List.filter_congr fun entity member => ?_)
  have shown := beq_iff_eq.mp (List.mem_filter.mp member).2
  rw [Entity.mustLeave, shown]
  rfl

/-- An indicator is wanted if its transform was gained, or if it stands elsewhere and its transform
was not lost. -/
theorem mem_wanted_iff : indicator ∈ world.wanted phrases changes ↔
    indicator ∈ RuleChange.gained changes ∨ indicator ∉ RuleChange.lost changes ∧
      ∃ cell ∈ world.sites indicator, (siteOf phrases indicator).any (· != cell) = true := by
  -- Listing the transforms that have moved once each does not change which they are.
  unfold wanted
  rw [List.mem_append, List.mem_eraseDups, List.mem_filter, Bool.not_eq_true', and_comm,
    ← Bool.not_eq_true, List.contains_iff_mem]
  refine or_congr_right (and_congr_right fun holds => ?_)
  have kept : (RuleChange.lost changes).contains indicator = false := by simpa using holds
  simp only [List.mem_filterMap, List.mem_filter, mem_sites_iff]
  constructor
  · rintro ⟨entity, ⟨live, leaves⟩, shown⟩
    rw [Entity.mustLeave, shown, Option.any_some, kept, Bool.false_or] at leaves
    exact ⟨entity.position, ⟨entity, live, shown, rfl⟩, leaves⟩
  · rintro ⟨_, ⟨entity, live, shown, rfl⟩, astray⟩
    refine ⟨entity, ⟨live, ?_⟩, shown⟩
    rw [Entity.mustLeave, shown, Option.any_some, astray, Bool.or_true]

/-- What is created for a transform among distinct ones stands on its site. -/
theorem sites_overlays {wanted : List Indicator} (distinct : wanted.Nodup) :
    ((wanted.filterMap fun other => (siteOf phrases other).map (SpawnRequest.overlay other)).filter
      (·.indicator == some indicator)).map (·.position) =
        if indicator ∈ wanted then (siteOf phrases indicator).toList else [] := by
  -- The first transform is the one that is asked for, or its overlay is filtered out again.
  induction wanted with
  | nil => rfl
  | cons first rest ih =>
    obtain ⟨absent, distinct⟩ := List.nodup_cons.mp distinct
    have others := ih distinct
    by_cases same : first = indicator
    · subst same
      rw [if_neg absent] at others
      rw [if_pos (List.mem_cons_self ..), List.filterMap_cons]
      cases siteOf phrases first with
      | none => exact others
      | some site => simp [SpawnRequest.overlay, others]
    · have differs : indicator ≠ first := Ne.symm same
      rw [List.filterMap_cons]
      cases siteOf phrases first with
      | none => simpa [differs] using others
      | some site => simpa [SpawnRequest.overlay, same, differs] using others

/-- If the indicators displayed the old rules, no indicator is wanted twice. -/
theorem Displays.nodup_wanted {old new : List Phrase} (displays : world.Displays old) :
    (world.wanted new ((Rulebook.ofPhrases old).changesTo (.ofPhrases new))).Nodup := by
  -- What is gained was not in force, so that there is no indicator of it that could leave.
  refine List.nodup_append.mpr ⟨Rulebook.nodup_gained, nodup_eraseDups _, ?_⟩
  intro gained new leaving moved same
  subst same
  obtain ⟨member, _⟩ := List.mem_filter.mp (List.mem_eraseDups.mp moved)
  obtain ⟨entity, leaves, shown⟩ := List.mem_filterMap.mp member
  have stands : entity.position ∈ world.sites gained :=
    mem_sites_iff.mpr ⟨entity, (List.mem_filter.mp leaves).1, shown, rfl⟩
  rw [displays, Option.mem_toList] at stands
  refine (Rulebook.mem_gained_iff.mp new).2 (isSome_siteOf_iff_mem_transforms.mp ?_)
  rw [stands]
  rfl

/-- Indicators that displayed the old rules and are brought in line display the new ones. -/
theorem Displays.indicatorMoves {old new : List Phrase} {ids : List EntityId}
    (displays : world.Displays old)
    (changed : changes = (Rulebook.ofPhrases old).changesTo (.ofPhrases new))
    (carried : (world.eraseAll (indicatorMoves world new changes).removed).createAll
      (indicatorMoves world new changes).added = .ok (ids, after)) : after.Displays new := by
  subst changed
  obtain ⟨added, entities, requested⟩ := entities_indicatorMoves carried
  intro indicator
  have created : (added.filter (·.indicator == some indicator)).map (·.position) =
      ((added.map Entity.toRequest).filter (·.indicator == some indicator)).map (·.position) := by
    rw [List.filter_map, List.map_map]
    rfl
  unfold sites
  rw [entities, List.filter_append, List.map_append, sites_staying, created, requested,
    sites_overlays displays.nodup_wanted]
  -- Whether there is a site before and after tells whether the transform is gained or lost.
  simp only [mem_wanted_iff, Rulebook.mem_gained_iff, Rulebook.mem_lost_iff,
    ← isSome_siteOf_iff_mem_transforms, displays indicator, List.contains_eq_mem]
  cases siteOf old indicator with
  | none => cases siteOf new indicator <;> simp
  | some before =>
    cases siteOf new indicator with
    | none => simp
    | some site => by_cases same : site = before <;> simp [same]

/-- Equipping the entities moves no indicator. -/
theorem sites_equip (world : World) (rulebook : Rulebook) (indicator : Indicator) :
    (world.mapEntities rulebook.equip).sites indicator = world.sites indicator := by
  -- Equipping keeps what an entity shows and where it stands.
  unfold sites
  rw [entities_mapEntities rulebook.id_equip, List.filter_map, List.map_map]
  have test : ((fun entity : Entity => entity.indicator == some indicator) ∘ rulebook.equip) =
      fun entity => entity.indicator == some indicator :=
    funext fun entity => by simp
  rw [test]
  exact List.map_congr_left fun entity _ => rulebook.position_equip entity

end World

/-- Applying the rules touches no indicator. -/
theorem Round.Applies.sites_eq {round : Round} {engine : Engine} {brought : World}
    (applies : round.Applies engine brought) (indicator : Indicator) :
    round.world.sites indicator = brought.sites indicator := by
  -- No indicator is governed.
  obtain ⟨ids, carried⟩ := applies.carried
  rw [← brought.sites_equip round.engine.rulebook indicator, World.sites, World.sites,
    Outcome.filter_carryOut_of_exempt ?_ applies.removals applies.replacements carried]
  intro entity governed
  rw [Entity.isGoverned_iff.mp governed]
  rfl

namespace Engine

/-- A round whose engine begins with displayed rules ends with displayed rules. -/
theorem round_displays {engine : Engine} {world : World} {elapsed : Duration} {round : Round}
    (inStep : engine.reader.InStep) (displays : world.Displays engine.reader.findings.phrases)
    (ran : engine.round world elapsed = .ok round) :
    round.world.Displays round.engine.reader.findings.phrases := by
  -- The changes lead from the rules that were displayed to those that are to be.
  obtain ⟨brought, applies, either⟩ := round_eq_ok ran
  intro indicator
  rw [applies.sites_eq]
  rcases either with ⟨_, reads⟩ | ⟨_, same, rfl⟩
  · obtain ⟨_, _, rfl, carried⟩ := reads.moved
    rw [rulebook, rulebook, inStep.rulebook, reads.inStep.rulebook] at carried
    exact displays.indicatorMoves rfl carried indicator
  · rw [same]
    exact displays indicator

/-- So does every tick, whether it is capped or not, and it leaves the reader in step. -/
theorem tick_displays {engine after : Engine} {world left : World} {elapsed : Duration}
    {record : TickRecord} (inStep : engine.reader.InStep)
    (displays : world.Displays engine.reader.findings.phrases)
    (ran : engine.tick world elapsed = .ok (record, after, left)) :
    after.reader.InStep ∧ left.Displays after.reader.findings.phrases := by
  -- Both are kept by every round that is followed by another, and then by the last one.
  obtain ⟨before, around, _, round, ⟨inStep, displays⟩, last, rfl, rfl, _⟩ := settle_ends
    (motive := fun engine world =>
      engine.reader.InStep ∧ world.Displays engine.reader.findings.phrases)
    (fun _ _ _ _ kept ran _ => ⟨inStep_of_round kept.1 ran, round_displays kept.1 kept.2 ran⟩)
    ⟨inStep, displays⟩ ran
  exact ⟨inStep_of_round inStep last, round_displays inStep displays last⟩

end Engine

namespace World

variable {world after : World} {id : EntityId}

/-- Creating an entity that is no indicator adds none. -/
theorem sites_insert {spawn : SpawnRequest} (inserted : world.insert spawn = .ok (id, after))
    (plain : spawn.indicator = none) (indicator : Indicator) :
    after.sites indicator = world.sites indicator := by
  -- The new entity is appended, and filtered out again.
  obtain ⟨_, _, entities, _⟩ := insert_eq_ok inserted
  unfold sites
  rw [entities, List.filter_append, List.map_append]
  simp [Entity.ofSpawn, plain]

/-- Taking out an entity that is no indicator leaves every indicator. -/
theorem sites_of_filter (entities : after.entities = world.entities.filter (·.id != id))
    (plain : ∀ entity, world.find? id = some entity → entity.indicator = none)
    (indicator : Indicator) : after.sites indicator = world.sites indicator := by
  -- Whoever is taken out shows nothing, and is filtered out on the other side as well.
  unfold sites
  rw [entities, List.filter_filter]
  refine congrArg (List.map _) (List.filter_congr fun entity live => ?_)
  by_cases same : entity.id = id
  · simp [plain entity (find?_eq_some_iff.mpr ⟨live, same⟩)]
  · simp [same]

/-- Moving an entity that is no indicator moves none. -/
theorem sites_move {target : Cell} (moved : world.move id target = .ok after)
    (plain : ∀ entity, world.find? id = some entity → entity.indicator = none)
    (indicator : Indicator) : after.sites indicator = world.sites indicator := by
  obtain ⟨_, _, _, rfl⟩ := move_eq_ok moved
  show (((world.entities.map _).filter _).map _) = _
  unfold sites
  rw [List.filter_map, List.map_map]
  -- Whoever has the identifier has no indicator, before and after.
  have test : ∀ entity ∈ world.entities, ((fun entity : Entity =>
      entity.indicator == some indicator) ∘ fun entity : Entity =>
        { (if entity.id = id then { entity with position := target } else entity) with
          id := entity.id }) entity = (entity.indicator == some indicator) := by
    intro entity live
    by_cases same : entity.id = id <;> simp [same]
  rw [List.filter_congr test]
  refine List.map_congr_left fun entity member => ?_
  obtain ⟨live, shows⟩ := List.mem_filter.mp member
  have differs : entity.id ≠ id := by
    intro same
    rw [plain entity (find?_eq_some_iff.mpr ⟨live, same⟩)] at shows
    cases shows
  simp [differs]

end World

/-- The states of a session. It begins with an engine that has not read anything and a world without
indicators; between ticks a host creates, moves and removes whatever is no indicator, and tells the
engine of changes. -/
inductive Session : Engine → World → Prop where
  | start {config : Config} {engine : Engine} {world : World}
      (built : Engine.ofConfig config = .ok engine)
      (bare : ∀ entity ∈ world.entities, entity.indicator = none) : Session engine world
  | place {engine : Engine} {world after : World} {spawn : SpawnRequest} {id : EntityId}
      (before : Session engine world) (plain : spawn.indicator = none)
      (placed : world.place spawn = .ok (id, after)) : Session engine after
  | create {engine : Engine} {world after : World} {spawn : SpawnRequest} {id : EntityId}
      (before : Session engine world) (plain : spawn.indicator = none)
      (created : world.create spawn = .ok (id, after)) : Session engine after
  | move {engine : Engine} {world after : World} {id : EntityId} {target : Cell}
      (before : Session engine world)
      (plain : ∀ entity, world.find? id = some entity → entity.indicator = none)
      (moved : world.move id target = .ok after) : Session engine after
  | remove {engine : Engine} {world after : World} {id : EntityId} {entity : Entity}
      (before : Session engine world) (plain : entity.indicator = none)
      (removed : world.remove id = .ok (entity, after)) : Session engine after
  | erase {engine : Engine} {world : World} {id : EntityId} (before : Session engine world)
      (plain : ∀ entity, world.find? id = some entity → entity.indicator = none) :
      Session engine (world.erase id)
  | signal {engine : Engine} {world : World} (before : Session engine world) :
      Session engine.signal world
  | tick {engine after : Engine} {world left : World} {elapsed : Duration} {record : TickRecord}
      (before : Session engine world)
      (ran : engine.tick world elapsed = .ok (record, after, left)) : Session after left

namespace Session

variable {engine : Engine} {world : World}

/-- Throughout a session the reader is in step, and the indicators display the rules of its latest
reading. -/
theorem displays (session : Session engine world) :
    engine.reader.InStep ∧ world.Displays engine.reader.findings.phrases := by
  -- Each change by the host leaves the indicators alone, and each tick brings them in line.
  induction session with
  | @start config engine world built bare =>
    unfold Engine.ofConfig at built
    split at built
    · cases built
      refine ⟨RuleReader.inStep_initial, fun indicator => ?_⟩
      -- No entity of the first world is an indicator.
      have nobody : world.sites indicator = [] := by
        refine List.map_eq_nil_iff.mpr (List.filter_eq_nil_iff.mpr fun entity live => ?_)
        simp [bare entity live]
      exact nobody
    · cases built
  | place _ plain placed ih =>
    refine ⟨ih.1, fun indicator => ?_⟩
    -- The new entity is no indicator, and so it is no site of one.
    rw [World.sites_insert (World.place_eq_ok placed).2 plain]
    exact ih.2 indicator
  | create _ plain created ih =>
    refine ⟨ih.1, fun indicator => ?_⟩
    rw [World.sites_insert (World.create_eq_ok created).2 plain]
    exact ih.2 indicator
  | move _ plain moved ih =>
    refine ⟨ih.1, fun indicator => ?_⟩
    -- Nor is the one that moves.
    rw [World.sites_move moved plain]
    exact ih.2 indicator
  | remove _ plain removed ih =>
    refine ⟨ih.1, fun indicator => ?_⟩
    unfold World.remove at removed
    split at removed
    · rename_i taken
      cases removed
      -- The one that is taken is no indicator either.
      obtain ⟨found, _, entities, _⟩ := World.take?_eq_some taken
      rw [World.sites_of_filter entities fun other again => by
        rw [found] at again
        cases again
        exact plain]
      exact ih.2 indicator
    · cases removed
  | erase _ plain ih =>
    refine ⟨ih.1, fun indicator => ?_⟩
    rw [World.sites_of_filter (World.entities_erase _ _) plain]
    exact ih.2 indicator
  | signal _ ih => exact ⟨ih.1.signal, ih.2⟩
  | tick _ ran ih => exact Engine.tick_displays ih.1 ih.2 ran

/-- Throughout a session, and so after every tick, there is exactly one indicator of each transform
that the rules hold, and none of any other. It stands on the cell of the first predicate word, in
reading order of the phrases that were found last, that states the transform. -/
theorem indicators_eq (session : Session engine world) (indicator : Indicator) :
    (indicator.target ∈ (engine.rulebook.grants indicator.subject).transforms →
      ∃ entity word, world.entities.filter (·.indicator == some indicator) = [entity] ∧
        FirstStates engine.reader.findings.phrases indicator word ∧
          entity.position = word.position) ∧
      (indicator.target ∉ (engine.rulebook.grants indicator.subject).transforms →
        ∀ entity ∈ world.entities, entity.indicator ≠ some indicator) := by
  -- The world displays the phrases that were found last, and these state what the rules hold.
  obtain ⟨inStep, displays⟩ := session.displays
  have displayed := displays indicator
  have holds : (siteOf engine.reader.findings.phrases indicator).isSome = true ↔
      indicator.target ∈ (engine.rulebook.grants indicator.subject).transforms := by
    rw [Engine.rulebook, inStep.rulebook]
    exact isSome_siteOf_iff_mem_transforms
  cases found : siteOf engine.reader.findings.phrases indicator with
  -- Nobody states the transform, and so its list of sites is empty.
  | none =>
    rw [found] at displayed holds
    refine ⟨fun member => absurd (holds.mpr member) (by decide), fun _ entity live shown => ?_⟩
    have stands : entity.position ∈ world.sites indicator :=
      World.mem_sites_iff.mpr ⟨entity, live, shown, rfl⟩
    rw [displayed] at stands
    cases stands
  -- The list of sites has one member, and that is the cell of the first predicate.
  | some site =>
    rw [found] at displayed holds
    refine ⟨fun _ => ?_, fun absent => absurd (holds.mp rfl) absent⟩
    obtain ⟨entity, single, stands⟩ := List.map_eq_singleton_iff.mp displayed
    obtain ⟨word, first, here⟩ := exists_firstStates found
    exact ⟨entity, word, single, first, stands.trans here.symm⟩

/-- After a tick in which a rock turns into a wall, one indicator displays the rule. -/
theorem indicators_rockOnRule : ∃ bare ids world record after left,
    World.empty 3 1 = .ok bare ∧ bare.createAll Engine.rockOnRule = .ok (ids, world) ∧
      Engine.unread.tick world .zero = .ok (record, after, left) ∧ Session after left ∧
        ∃ entity word,
          left.entities.filter (·.indicator == some ⟨.rock, .wall⟩) = [entity] ∧
            FirstStates after.reader.findings.phrases ⟨.rock, .wall⟩ word ∧
              entity.position = word.position := by
  -- The session is one tick long, and begins with entities that show nothing.
  obtain ⟨bare, ids, world, record, after, left, empty, created, _, _, ran, _, _, holds⟩ :=
    Engine.exists_tick_rockOnRule
  have requests : ∀ request ∈ Engine.rockOnRule, request.indicator = none := by decide
  have none : ∀ entity ∈ world.entities, entity.indicator = none := by
    obtain ⟨_, added, entities, requested, _⟩ := World.createAll_eq_ok created
    cases empty
    intro entity live
    rw [entities, List.nil_append] at live
    exact requests entity.toRequest (requested ▸ List.mem_map_of_mem live)
  have built : Engine.ofConfig .standard = .ok Engine.unread := rfl
  have session : Session after left := (start built none).tick ran
  exact ⟨bare, ids, world, record, after, left, empty, created, ran, session,
    (session.indicators_eq ⟨.rock, .wall⟩).1 holds⟩

end Session

end WordTiles
