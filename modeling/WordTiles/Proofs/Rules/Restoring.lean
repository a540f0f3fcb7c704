import WordTiles.Proofs.Rules.Accounting
import WordTiles.Proofs.Rules.Displaying
import WordTiles.Proofs.Rules.Pausing
import WordTiles.Proofs.Rules.Playing

/-! Restoring: what the next tick makes of a world that is put back as an earlier tick left it, when
the engine has gone by other rules in between. -/

namespace WordTiles

/-- A rulebook turns the subject of an indicator into its target. -/
def Rulebook.Turns (rulebook : Rulebook) (indicator : Indicator) : Prop :=
  -- Terminal targets count, since they have indicators as well.
  indicator.target ∈ (rulebook.grants indicator.subject).transforms

/-- A tick of one round brings the indicators of a world in line with a change of the rules, and
does nothing else: those of lost transforms go, and each gained transform gets one where it
belongs. -/
structure TickRecord.Realigns (record : TickRecord) (changes : List RuleChange)
    (phrases : List Phrase) (world left : World) : Prop where
  rounds : record.rounds = 1
  uncapped : record.capped = false
  gone : record.gone = (world.entities.filter (·.isLost changes)).map (·.id)
  carried : (world.eraseAll record.gone).createAll (RuleChange.overlays changes phrases) =
    .ok (record.spawned, left)

namespace TickRecord.Realigns

variable {record : TickRecord} {changes : List RuleChange} {phrases : List Phrase}
  {world left : World}

/-- Every indicator of a transform that is not lost stays, and a gained transform gets one more. -/
theorem sites_eq {old new : Rulebook} (realigns : record.Realigns (old.changesTo new) phrases world
    left) {indicator : Indicator} (turns : new.Turns indicator) :
    left.sites indicator = world.sites indicator ++
      if indicator ∈ RuleChange.gained (old.changesTo new) then (siteOf phrases indicator).toList
      else [] := by
  have carried := realigns.carried
  rw [realigns.gone] at carried
  obtain ⟨_, added, entities, requested, _⟩ := World.createAll_eq_ok carried
  rw [World.entities_eraseAll_filter] at entities
  have created : (added.filter (·.indicator == some indicator)).map (·.position) =
      ((added.map Entity.toRequest).filter (·.indicator == some indicator)).map (·.position) := by
    rw [List.filter_map, List.map_map]
    rfl
  unfold World.sites
  rw [entities, List.filter_append, List.map_append, created, requested, RuleChange.overlays,
    World.sites_overlays Rulebook.nodup_gained, List.filter_filter]
  refine congrArg (fun stay => List.map _ stay ++ _) (List.filter_congr fun entity _ => ?_)
  -- An indicator of a transform that is in force is not lost.
  by_cases shown : entity.indicator = some indicator
  · have kept : entity.isLost (old.changesTo new) = false := by
      rw [Entity.isLost, shown, Option.any_some, ← Bool.not_eq_true, List.contains_iff_mem,
        Rulebook.mem_lost_iff]
      exact fun lost => lost.2 turns
    rw [kept, Bool.not_false, Bool.and_true]
  · rw [beq_eq_false_iff_ne.mpr shown, Bool.false_and]

/-- Nothing is spawned and the world stays exactly as it was if and only if no transform is gained
and none is lost that has an indicator. -/
theorem transparent_iff {old new : Rulebook} (states : new = .ofPhrases phrases)
    (realigns : record.Realigns (old.changesTo new) phrases world left) :
    record.spawned = [] ∧ left = world ↔
      (∀ indicator, new.Turns indicator → old.Turns indicator) ∧
        ∀ entity ∈ world.entities, ∀ indicator ∈ entity.indicator, old.Turns indicator →
          new.Turns indicator := by
  subst states
  have carried := realigns.carried
  rw [realigns.gone] at carried
  constructor
  · rintro ⟨none, rfl⟩
    obtain ⟨_, added, entities, requested, named⟩ := World.createAll_eq_ok carried
    rw [none, List.map_eq_nil_iff] at named
    rw [named, List.append_nil, World.entities_eraseAll_filter] at entities
    rw [named] at requested
    constructor
    · -- A gained transform has a site, so that an indicator would have been created for it.
      intro indicator turns
      by_contra new
      obtain ⟨site, belongs⟩ :=
        Option.isSome_iff_exists.mp (isSome_siteOf_iff_mem_transforms.mpr turns)
      have overlay := List.filterMap_eq_nil_iff.mp requested.symm indicator
        (Rulebook.mem_gained_iff.mpr ⟨turns, new⟩)
      rw [belongs] at overlay
      cases overlay
    · -- An indicator of a lost transform would have gone.
      intro entity live indicator shown turned
      by_contra ended
      have kept := List.filter_eq_self.mp entities.symm entity live
      rw [Entity.isLost, Option.mem_def.mp shown, Option.any_some, Bool.not_eq_true',
        ← Bool.not_eq_true, List.contains_iff_mem] at kept
      exact kept (Rulebook.mem_lost_iff.mpr ⟨turned, ended⟩)
  · rintro ⟨gained, lost⟩
    -- The other way round nobody is asked to leave, and nobody to come.
    have nobody : world.entities.filter (·.isLost (old.changesTo (.ofPhrases phrases))) = [] := by
      refine List.filter_eq_nil_iff.mpr fun entity live leaves => ?_
      obtain ⟨indicator, shown, listed⟩ := (Option.any_eq_true _ _).mp leaves
      obtain ⟨turned, ended⟩ := Rulebook.mem_lost_iff.mp (List.contains_iff_mem.mp listed)
      exact ended (lost entity live indicator shown turned)
    have nothing : RuleChange.gained (old.changesTo (.ofPhrases phrases)) = [] := by
      refine List.eq_nil_iff_forall_not_mem.mpr fun indicator listed => ?_
      obtain ⟨turns, new⟩ := Rulebook.mem_gained_iff.mp listed
      exact new (gained indicator turns)
    rw [nobody, RuleChange.overlays, nothing] at carried
    obtain ⟨none, same⟩ := Prod.mk.inj (Except.ok.inj carried)
    exact ⟨none.symm, same.symm⟩

end TickRecord.Realigns

namespace Engine

variable {engine later : Engine} {world brought : World} {elapsed : Duration}

/-- At rest, the rules still ask for nothing when only indicators have gone and come. -/
theorem AtRest.idle (atRest : engine.AtRest world) (consistent : world.Consistent)
    (consistent' : brought.Consistent) (still : ∀ entity ∈ brought.entities,
      entity.isGoverned = true → entity ∈ world.entities) (time : Duration) :
    RuleApplier.outcomeOf brought engine.rulebook engine.config time =
      (.idle brought time, brought) := by
  -- Nobody but indicators is new, and so everybody is equipped, spared and left as they are.
  have equipped : ∀ entity ∈ brought.entities, engine.rulebook.equip entity = entity := by
    intro entity live
    cases governed : entity.isGoverned with
    | true => exact atRest.equipped entity (still entity live governed)
    | false => exact Rulebook.equip_of_exempt governed
  have harmless := consistent.isHarmless atRest.unharmed
  have calm : brought.Calm engine.rulebook engine.config.destruction := by
    intro destroyer one victim other governed governed' together differ rule listed
    rw [equipped destroyer one, equipped victim other]
    refine harmless victim.position destroyer ?_ victim ?_ governed governed' differ rule listed
    · exact consistent.mem_occupants_iff.mpr ⟨still destroyer one governed, together⟩
    · exact consistent.mem_occupants_iff.mpr ⟨still victim other governed', rfl⟩
  have unharmed := calm.destruction_eq_nil consistent'
  rw [World.mapEntities_eq_self equipped] at unharmed
  refine RuleApplier.outcomeOf_eq_idle equipped unharmed ?_ time
  refine World.replacements_eq_nil_iff.mpr fun entity live governed => ?_
  exact World.replacements_eq_nil_iff.mp atRest.unturned entity (still entity live governed)
    governed

/-- Whatever an engine with the same settings has gone by, when it reads a world that is at rest it
goes by the same rules as the engine at rest, and brings the indicators in line with the change. -/
theorem AtRest.of_advance (atRest : engine.AtRest world) (same : later.config = engine.config)
    {reading : Reading} {reader : RuleReader}
    (read : later.signal.reader.advance world later.config elapsed = .ok (reading, reader)) :
    reader.rulebook = engine.rulebook ∧
      reading.indicators = indicatorMoves world engine.reader.findings.phrases
        (later.rulebook.changesTo engine.rulebook) := by
  obtain ⟨_, searched, _, inStep, moves⟩ := RuleReader.advance_of_stale rfl read
  -- There is one result of a search.
  rw [same] at searched
  have findings := Except.ok.inj (searched.symm.trans atRest.current)
  have rules : reader.rulebook = engine.rulebook := by
    rw [rulebook, inStep.rulebook, atRest.inStep.rulebook, findings]
  rw [findings, rules] at moves
  exact ⟨rules, moves⟩

/-- The next tick of such an engine brings the indicators in line, and does nothing else. -/
theorem AtRest.tick_realigns (atRest : engine.AtRest world) (reachable : world.Reachable)
    (same : later.config = engine.config)
    (reads : ∃ clock, later.reader.clock.add elapsed = .ok clock)
    (applies : ∃ clock, later.applier.clock.add elapsed = .ok clock)
    (room : world.nextId.toNat +
      (RuleChange.gained (later.rulebook.changesTo engine.rulebook)).length < UInt32.size) :
    ∃ record after left, later.signal.tick world elapsed = .ok (record, after, left) ∧
      after.rulebook = engine.rulebook ∧
        record.Realigns (later.rulebook.changesTo engine.rulebook) engine.reader.findings.phrases
          world left := by
  have consistent := reachable.consistent
  obtain ⟨readTime, reads⟩ := reads
  -- The clock has room, so that the reading succeeds.
  obtain ⟨⟨reading, reader⟩, read⟩ :=
    (later.signal.reader.advance_total consistent later.config elapsed).resolve_right
      (by rw [show later.signal.reader.clock = later.reader.clock from rfl, reads]; exact nofun)
  obtain ⟨rules, moves⟩ := atRest.of_advance same read
  -- There are identifiers for the indicators that are asked for, one for each gained transform.
  have asked := contains_of_reading consistent read
  rw [← World.toGrid_eraseAll world reading.indicators.removed] at asked
  have few : reading.indicators.added.length ≤
      (RuleChange.gained (later.rulebook.changesTo engine.rulebook)).length := by
    rw [moves, atRest.inPlace.indicatorMoves_eq]
    exact List.length_filterMap_le ..
  obtain ⟨ids, brought, made, _⟩ := World.createAll_of_room asked
    (by rw [World.nextId_eraseAll]; omega)
  have carried : reading.carryOut world = .ok (ids, brought) := made
  have consistent' := ((reachable.eraseAll _).createAll made).consistent
  -- The rules ask for nothing else, so this is the last round.
  rw [moves] at made
  have idle := atRest.idle consistent consistent' fun entity live governed =>
    (World.mem_iff_of_isGoverned made governed).mp live
  obtain ⟨applyTime, applies⟩ := applies
  have applied : later.applier.advance brought reader.rulebook later.config elapsed =
      .ok (.idle brought applyTime, ⟨later.applier.updateCount + 1, applyTime⟩, brought) := by
    unfold RuleApplier.advance
    rw [applies, rules, same]
    simp only [Bind.bind, Except.bind, idle]
    rfl
  have first : later.signal.round world elapsed = _ :=
    round_of_steps read carried applied (RuleApplier.carryOut_of_quiet applied rfl)
  refine ⟨_, _, _, settle_of_last first (.inl rfl), rules, rfl, rfl, ?_, ?_⟩
  · rw [TickRecord.gone_record, moves, atRest.inPlace.indicatorMoves_eq]
    exact List.append_nil _
  · rw [TickRecord.gone_record, moves]
    rw [atRest.inPlace.indicatorMoves_eq] at made ⊢
    simpa [Outcome.gone, Outcome.idle, Outcome.nothing, Round.record] using made

end Engine

namespace Game

variable {game later : Game}

/-- No request changes the settings of the engine. -/
theorem config_serve {request : Request} (served : game.serve request = .ok later) :
    later.engine.config = game.engine.config := by
  -- Every request keeps the engine, or signals it, or settles.
  unfold serve at served
  cases request with
  | place spawn =>
    -- An edit changes the world alone.
    obtain ⟨_, _, served⟩ := bind_eq_ok_iff.mp served
    cases served
    rfl
  | move id target =>
    obtain ⟨_, _, served⟩ := bind_eq_ok_iff.mp served
    cases served
    rfl
  | remove id =>
    obtain ⟨_, _, served⟩ := bind_eq_ok_iff.mp served
    cases served
    rfl
  | signal =>
    cases served
    rfl
  | search config =>
    obtain ⟨_, _, served⟩ := bind_eq_ok_iff.mp served
    obtain ⟨_, _, served⟩ := bind_eq_ok_iff.mp served
    cases served
    rfl
  | check =>
    obtain ⟨_, _, served⟩ := bind_eq_ok_iff.mp served
    cases served
    rfl
  -- Settling keeps the settings in every round.
  | tick elapsed =>
    obtain ⟨⟨record, engine, world⟩, ran, served⟩ := bind_eq_ok_iff.mp served
    cases served
    exact Engine.config_of_settle ran

/-- Nor does a whole run. -/
theorem config_play {requests : List Request} (played : game.play requests = .ok later) :
    later.engine.config = game.engine.config := by
  -- A request that is refused keeps the whole game.
  unfold play at played
  induction requests generalizing game with
  | nil =>
    cases played
    rfl
  | cons request rest ih =>
    rw [List.foldlM_cons] at played
    obtain ⟨middle, proceeded, played⟩ := bind_eq_ok_iff.mp played
    refine (ih played).trans ?_
    unfold proceed at proceeded
    split at proceeded
    · cases proceeded
      exact config_serve ‹_›
    · split at proceeded <;> cases proceeded
      rfl

/-- When a world is put back as an uncapped tick left it, after a run in which the engine may have
read other words, the next tick brings the indicators in line with how the rules change from the
latest reading to that of the world put back, and does nothing else. A transform that the latest
reading had keeps its indicators, but one that it did not have gets one more, although it has those
that were put back with the world. So the world is left exactly as it was put back if and only if
the latest reading had all its transforms, and no other one that an indicator shows. -/
theorem tick_restored {engine after : Engine} {world left : World} {record : TickRecord}
    {spent elapsed : Duration} {requests : List Request} (reachable : world.Reachable)
    (plain : world.IsPlain) (stale : engine.reader.isStale = true)
    (ran : engine.tick world spent = .ok (record, after, left)) (uncapped : record.capped = false)
    (played : (Game.mk after left).play requests = .ok later)
    (reads : ∃ clock, later.engine.reader.clock.add elapsed = .ok clock)
    (applies : ∃ clock, later.engine.applier.clock.add elapsed = .ok clock)
    (room : left.nextId.toNat +
      (RuleChange.gained (later.engine.rulebook.changesTo after.rulebook)).length < UInt32.size) :
    ∃ again last restored, later.engine.signal.tick left elapsed = .ok (again, last, restored) ∧
      again.Realigns (later.engine.rulebook.changesTo after.rulebook) after.reader.findings.phrases
        left restored ∧
      (∀ indicator, after.rulebook.Turns indicator →
        (later.engine.rulebook.Turns indicator →
          restored.sites indicator = left.sites indicator) ∧
        (¬later.engine.rulebook.Turns indicator →
          ∃ site, siteOf after.reader.findings.phrases indicator = some site ∧
            restored.sites indicator = left.sites indicator ++ [site])) ∧
      (again.spawned = [] ∧ restored = left ↔
        (∀ indicator, after.rulebook.Turns indicator → later.engine.rulebook.Turns indicator) ∧
          ∀ entity ∈ left.entities, ∀ indicator ∈ entity.indicator,
            later.engine.rulebook.Turns indicator → after.rulebook.Turns indicator) := by
  have atRest := Engine.settle_atRest reachable plain stale ran uncapped
  have keeps := (Engine.settle_spec reachable plain stale ran).1
  obtain ⟨again, last, restored, ticked, _, realigns⟩ :=
    atRest.tick_realigns keeps.reachable (config_play played) reads applies room
  have states : after.rulebook = .ofPhrases after.reader.findings.phrases :=
    atRest.inStep.rulebook
  refine ⟨again, last, restored, ticked, realigns, ?_, realigns.transparent_iff states⟩
  intro indicator turns
  have sites := realigns.sites_eq turns
  constructor
  · intro kept
    have old : indicator ∉ RuleChange.gained
        (later.engine.rulebook.changesTo after.rulebook) := fun gained =>
      (Rulebook.mem_gained_iff.mp gained).2 kept
    rwa [if_neg old, List.append_nil] at sites
  · intro missing
    -- Whatever the rules turn into anything is stated by the phrases, so it has a site.
    have stated := turns
    rw [states] at stated
    obtain ⟨site, belongs⟩ :=
      Option.isSome_iff_exists.mp (isSome_siteOf_iff_mem_transforms.mpr stated)
    rw [if_pos (Rulebook.mem_gained_iff.mpr ⟨turns, missing⟩), belongs] at sites
    exact ⟨site, belongs, sites⟩

/-- After a run in which a wall turns into a rock, the world is left as it was put back. -/
theorem tick_restored_wallTurns : ∃ world record after left later again last restored,
    World.row [.wall, .is, .rock] = .ok world ∧
      Engine.unread.tick world .zero = .ok (record, after, left) ∧
      left.ids = [⟨0⟩, ⟨1⟩, ⟨2⟩, ⟨3⟩] ∧
      (Game.mk after left).play [.place (.object .wall ⟨1, 0⟩), .tick .zero] = .ok later ∧
      later.world.ids = [⟨0⟩, ⟨1⟩, ⟨2⟩, ⟨3⟩, ⟨5⟩] ∧
      later.engine.signal.tick left .zero = .ok (again, last, restored) ∧
      again.spawned = [] ∧ restored = left := by
  have known : (do
      let world ← World.row [.wall, .is, .rock]
      let ran ← Engine.unread.tick world .zero
      let later ← (Game.mk ran.2.1 ran.2.2).play [.place (.object .wall ⟨1, 0⟩), .tick .zero]
      return (ran.1.capped, ran.2.2.ids, ran.2.2.nextId, later.world.ids,
        decide (later.engine.rulebook = ran.2.1.rulebook)) : Except Error _) =
        .ok (false, [⟨0⟩, ⟨1⟩, ⟨2⟩, ⟨3⟩], 4, [⟨0⟩, ⟨1⟩, ⟨2⟩, ⟨3⟩, ⟨5⟩], true) := by
    cbv
  obtain ⟨world, built, known⟩ := bind_eq_ok_iff.mp known
  obtain ⟨⟨record, after, left⟩, ran, known⟩ := bind_eq_ok_iff.mp known
  obtain ⟨later, played, known⟩ := bind_eq_ok_iff.mp known
  simp only [Pure.pure, Except.pure, Except.ok.injEq, Prod.mk.injEq, decide_eq_true_eq] at known
  obtain ⟨uncapped, before, next, between, same⟩ := known
  -- The rules are the same before and after, so nothing is gained and nothing is lost.
  have room : left.nextId.toNat + (RuleChange.gained
      (later.engine.rulebook.changesTo after.rulebook)).length < UInt32.size := by
    rw [same, Rulebook.changesTo_self, next]
    decide
  obtain ⟨again, last, restored, ticked, _, _, transparent⟩ := tick_restored (.row built)
    (.row built) rfl ran uncapped played ⟨_, Duration.add_zero _⟩ ⟨_, Duration.add_zero _⟩ room
  rw [same] at transparent
  obtain ⟨silent, put⟩ := transparent.mpr
    ⟨fun _ turns => turns, fun _ _ _ _ turns => turns⟩
  exact ⟨world, record, after, left, later, again, last, restored, built, ran, before, played,
    between, ticked, silent, put⟩

/-- Undoing is not always transparent: when a rule was broken in between, its transform has two
indicators after the tick that follows. -/
theorem not_always_transparent : ¬ ∀ (engine after : Engine) (world left : World)
    (record : TickRecord) (spent elapsed : Duration) (requests : List Request) (later : Game)
    (again : TickRecord) (last : Engine) (restored : World),
    world.Reachable → world.IsPlain → engine.reader.isStale = true →
      engine.tick world spent = .ok (record, after, left) → record.capped = false →
        (Game.mk after left).play requests = .ok later →
          later.engine.signal.tick left elapsed = .ok (again, last, restored) →
            again.spawned = [] ∧ restored.entities = left.entities ∧
              ∀ indicator, restored.sites indicator = left.sites indicator := by
  -- The row `WALL IS ROCK` is read, broken, read again and put back.
  intro transparent
  have known : (do
      let world ← World.row [.wall, .is, .rock]
      let ran ← Engine.unread.tick world .zero
      let later ← (Game.mk ran.2.1 ran.2.2).play [.remove ⟨1⟩, .signal, .tick .zero]
      let again ← later.engine.signal.tick ran.2.2 .zero
      return (ran.1.capped, again.1.spawned, ran.2.2.sites ⟨.wall, .rock⟩,
        again.2.2.sites ⟨.wall, .rock⟩) : Except Error _) =
        .ok (false, [⟨4⟩], [⟨2, 0⟩], [⟨2, 0⟩, ⟨2, 0⟩]) := by
    cbv
  obtain ⟨world, built, known⟩ := bind_eq_ok_iff.mp known
  obtain ⟨⟨record, after, left⟩, ran, known⟩ := bind_eq_ok_iff.mp known
  obtain ⟨later, played, known⟩ := bind_eq_ok_iff.mp known
  obtain ⟨⟨again, last, restored⟩, ticked, known⟩ := bind_eq_ok_iff.mp known
  simp only [Pure.pure, Except.pure, Except.ok.injEq, Prod.mk.injEq] at known
  obtain ⟨uncapped, _, one, two⟩ := known
  -- By the claim the second indicator would have been there before.
  obtain ⟨_, _, sites⟩ := transparent _ _ _ _ _ _ _ _ _ _ _ _ (.row built) (.row built) rfl ran
    uncapped played ticked
  have same := sites ⟨.wall, .rock⟩
  rw [one, two] at same
  exact absurd same (by decide)

end Game

end WordTiles
