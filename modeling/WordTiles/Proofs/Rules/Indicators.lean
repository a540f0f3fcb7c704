import Mathlib.Data.List.Nodup
import WordTiles.Proofs.World.Edits
import WordTiles.Rules.Reading

/-! How the indicators of a world are brought in line with the phrases on it: who leaves, who stays,
and who is new. -/

namespace WordTiles

/-- An indicator must leave if its transform was lost, or if the predicate that states its transform
lies elsewhere. -/
def Entity.mustLeave (entity : Entity) (phrases : List Phrase) (changes : List RuleChange) : Bool :=
  -- Whoever shows no transform stays.
  entity.indicator.any fun indicator =>
    (RuleChange.lost changes).contains indicator ||
      (siteOf phrases indicator).any (· != entity.position)

/-- The transforms that need a new indicator: the gained ones, and those of the indicators that
leave although their transforms still hold. -/
def World.wanted (world : World) (phrases : List Phrase) (changes : List RuleChange) :
    List Indicator :=
  -- A transform that is gained has no indicator that could leave.
  RuleChange.gained changes ++
    (((world.entities.filter (·.mustLeave phrases changes)).filterMap (·.indicator)).filter
      (!(RuleChange.lost changes).contains ·)).eraseDups

/-- Whoever must leave is removed, and each wanted indicator is created where it belongs. -/
theorem indicatorMoves_eq (world : World) (phrases : List Phrase) (changes : List RuleChange) :
    indicatorMoves world phrases changes =
      { removed := (world.entities.filter (·.mustLeave phrases changes)).map (·.id)
        added := (world.wanted phrases changes).filterMap fun indicator =>
          (siteOf phrases indicator).map (SpawnRequest.overlay indicator) } :=
  -- The local definitions are given their names.
  rfl

/-- An entity is an indicator of a transform that is lost. -/
def Entity.isLost (entity : Entity) (changes : List RuleChange) : Bool :=
  -- Its cell does not matter.
  entity.indicator.any (RuleChange.lost changes).contains

/-- What is created for the transforms that are gained: an indicator each, where it belongs. -/
def RuleChange.overlays (changes : List RuleChange) (phrases : List Phrase) : List SpawnRequest :=
  -- A transform that was gained is stated somewhere, so that none is left out.
  (gained changes).filterMap fun indicator =>
    (siteOf phrases indicator).map (SpawnRequest.overlay indicator)

namespace World

/-- Erasing the entities that pass a test leaves those that fail it. -/
theorem entities_eraseAll_filter (world : World) (test : Entity → Bool) :
    (world.eraseAll ((world.entities.filter test).map (·.id))).entities =
      world.entities.filter (!test ·) := by
  rw [entities_eraseAll]
  refine List.filter_congr fun entity live => congrArg Bool.not ?_
  rw [Bool.eq_iff_iff, List.contains_iff_mem, List.mem_map]
  constructor
  · -- Nobody else has the identifier.
    rintro ⟨other, member, same⟩
    obtain ⟨known, passes⟩ := List.mem_filter.mp member
    rwa [← eq_of_id known live same]
  · intro passes
    exact ⟨entity, List.mem_filter.mpr ⟨live, passes⟩, rfl⟩

/-- Bringing the indicators in line keeps whoever need not leave, and adds the wanted indicators. -/
theorem entities_indicatorMoves {world after : World} {phrases : List Phrase}
    {changes : List RuleChange} {ids : List EntityId}
    (carried : (world.eraseAll (indicatorMoves world phrases changes).removed).createAll
      (indicatorMoves world phrases changes).added = .ok (ids, after)) :
    ∃ added, after.entities = world.entities.filter (!·.mustLeave phrases changes) ++ added ∧
      added.map Entity.toRequest = (world.wanted phrases changes).filterMap fun indicator =>
        (siteOf phrases indicator).map (SpawnRequest.overlay indicator) := by
  -- Removing comes first, and creating appends.
  rw [indicatorMoves_eq] at carried
  obtain ⟨_, added, entities, requested, _⟩ := createAll_eq_ok carried
  rw [entities_eraseAll_filter] at entities
  exact ⟨added, entities, requested⟩

/-- Bringing the indicators in line leaves the governed entities as they are. -/
theorem mem_iff_of_isGoverned {world after : World} {phrases : List Phrase}
    {changes : List RuleChange} {ids : List EntityId}
    (carried : (world.eraseAll (indicatorMoves world phrases changes).removed).createAll
      (indicatorMoves world phrases changes).added = .ok (ids, after)) {entity : Entity}
    (governed : entity.isGoverned = true) :
    entity ∈ after.entities ↔ entity ∈ world.entities := by
  -- Only indicators leave, and only indicators are new.
  obtain ⟨added, entities, requested⟩ := entities_indicatorMoves carried
  rw [entities, List.mem_append, List.mem_filter]
  constructor
  · rintro (stays | new)
    · exact stays.1
    · have request := List.mem_map_of_mem new (f := Entity.toRequest)
      rw [requested] at request
      obtain ⟨indicator, _, placed⟩ := List.mem_filterMap.mp request
      obtain ⟨_, _, same⟩ := Option.map_eq_some_iff.mp placed
      have shows := congrArg SpawnRequest.indicator same
      change some indicator = entity.indicator at shows
      rw [Entity.isGoverned, ← shows] at governed
      cases governed
  · intro live
    refine .inl ⟨live, ?_⟩
    rw [Entity.mustLeave, Entity.isGoverned_iff.mp governed]
    rfl

/-- Every indicator whose transform is stated stands on the cell of the first predicate that states
it. -/
def InPlace (world : World) (phrases : List Phrase) : Prop :=
  -- Indicators of transforms that nobody states are not asked.
  ∀ entity ∈ world.entities, ∀ indicator ∈ entity.indicator, ∀ site ∈ siteOf phrases indicator,
    entity.position = site

/-- Whatever indicators there were before, those that are left when they have been brought in line
are in place. -/
theorem inPlace_indicatorMoves {world after : World} {phrases : List Phrase}
    {changes : List RuleChange} {ids : List EntityId}
    (carried : (world.eraseAll (indicatorMoves world phrases changes).removed).createAll
      (indicatorMoves world phrases changes).added = .ok (ids, after)) :
    after.InPlace phrases := by
  obtain ⟨added, entities, requested⟩ := entities_indicatorMoves carried
  intro entity live indicator shown site belongs
  rw [entities, List.mem_append] at live
  rcases live with stays | new
  · -- Whoever stood elsewhere would have left.
    have need := (List.mem_filter.mp stays).2
    rw [Entity.mustLeave, Option.mem_def.mp shown, Option.any_some, Option.mem_def.mp belongs,
      Option.any_some, Bool.not_eq_true', Bool.or_eq_false_iff, bne_eq_false_iff_eq] at need
    exact need.2.symm
  · have request := List.mem_map_of_mem new (f := Entity.toRequest)
    rw [requested] at request
    obtain ⟨other, _, placed⟩ := List.mem_filterMap.mp request
    obtain ⟨position, found, same⟩ := Option.map_eq_some_iff.mp placed
    have shows := congrArg SpawnRequest.indicator same
    have stands := congrArg SpawnRequest.position same
    change some other = entity.indicator at shows
    change position = entity.position at stands
    rw [Option.mem_def.mp shown, Option.some.injEq] at shows
    rw [shows, Option.mem_def.mp belongs, Option.some.injEq] at found
    exact stands.symm.trans found.symm

/-- Where every indicator is in place, only those of lost transforms leave, and only gained
transforms get new ones. -/
theorem InPlace.indicatorMoves_eq {world : World} {phrases : List Phrase}
    (inPlace : world.InPlace phrases) (changes : List RuleChange) :
    indicatorMoves world phrases changes =
      ⟨(world.entities.filter (·.isLost changes)).map (·.id),
        RuleChange.overlays changes phrases⟩ := by
  -- No site differs from where the indicator stands.
  have leaving : world.entities.filter (·.mustLeave phrases changes) =
      world.entities.filter (·.isLost changes) := by
    refine List.filter_congr fun entity live => ?_
    unfold Entity.mustLeave Entity.isLost
    cases shown : entity.indicator with
    | none => rfl
    | some indicator =>
      have still : (siteOf phrases indicator).any (· != entity.position) = false := by
        cases belongs : siteOf phrases indicator with
        | none => rfl
        | some site =>
          rw [Option.any_some, bne_eq_false_iff_eq]
          exact (inPlace entity live indicator shown site belongs).symm
      rw [Option.any_some, Option.any_some, still, Bool.or_false]
  -- Whoever leaves has lost the transform, and so none is created again.
  have moved : (((world.entities.filter (·.isLost changes)).filterMap (·.indicator)).filter
      (!(RuleChange.lost changes).contains ·)) = [] := by
    refine List.filter_eq_nil_iff.mpr fun indicator listed => ?_
    obtain ⟨entity, leaves, shown⟩ := List.mem_filterMap.mp listed
    have lost := (List.mem_filter.mp leaves).2
    rw [Entity.isLost, shown, Option.any_some] at lost
    rw [lost]
    exact Bool.false_ne_true
  rw [WordTiles.indicatorMoves_eq, wanted, leaving, moved]
  simp [RuleChange.overlays]

/-- Indicators that are in place are not touched unless a transform is gained or lost. -/
theorem indicatorMoves_eq_none {world : World} {phrases : List Phrase}
    (inPlace : world.InPlace phrases) : indicatorMoves world phrases [] = .none := by
  -- Without a change nothing is lost, and whoever is in place need not leave.
  have nobody : world.entities.filter (·.isLost []) = [] := by
    refine List.filter_eq_nil_iff.mpr fun entity _ lost => ?_
    obtain ⟨indicator, _, listed⟩ := (Option.any_eq_true _ _).mp lost
    cases listed
  rw [inPlace.indicatorMoves_eq, nobody]
  rfl

end World

end WordTiles
