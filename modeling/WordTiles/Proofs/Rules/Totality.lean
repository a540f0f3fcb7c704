import WordTiles.Proofs.Rules.Settling
import WordTiles.Proofs.Rules.Sites
import WordTiles.Proofs.Sentence.Found

/-! Ticks never fail on a sound world, unless a clock passes its last second or the identifiers are
used up. -/

namespace WordTiles

/-- Two steps that succeed, or fail with one and the same error, do so together. -/
theorem bind_total {α β : Type} {first : Except Error α} {next : α → Except Error β} {error : Error}
    (one : (∃ value, first = .ok value) ∨ first = .error error)
    (other : ∀ value, first = .ok value →
      (∃ result, next value = .ok result) ∨ next value = .error error) :
    (∃ result, (first >>= next) = .ok result) ∨ (first >>= next) = .error error := by
  -- The first step fails, or the second one decides.
  rcases one with ⟨value, rfl⟩ | rfl
  · exact other value rfl
  · exact .inr rfl

/-- A clock runs, or it passes its last second. -/
theorem Duration.add_total (a b : Duration) :
    (∃ sum, a.add b = .ok sum) ∨ a.add b = .error .clockOverflow := by
  -- There is one way to fail.
  unfold add
  split
  · exact .inl ⟨_, rfl⟩
  · exact .inr rfl

namespace World

/-- Entities can be created on cells of the grid until the identifiers are used up. -/
theorem createAll_total {world : World} {requests : List SpawnRequest}
    (inside : ∀ request ∈ requests, world.contains request.position = true) :
    (∃ made, world.createAll requests = .ok made) ∨
      world.createAll requests = .error .sumOverflow := by
  -- A single creation can only run out of identifiers, and it keeps the grid for the next.
  induction requests generalizing world with
  | nil => exact .inl ⟨_, rfl⟩
  | cons request rest ih =>
    refine bind_total ?_ fun made created => ?_
    · unfold create insert
      rw [if_pos (inside request (.head _))]
      split
      · exact .inl ⟨_, rfl⟩
      · exact .inr rfl
    · obtain ⟨_, grid, _⟩ := insert_eq_ok (create_eq_ok created).2
      refine bind_total (ih fun other member => ?_) fun later _ => .inl ⟨_, rfl⟩
      rw [grid]
      exact inside other (.tail _ member)

end World

namespace Outcome

/-- So can replacements. -/
theorem replaceAll_total {replacements : List Replacement} {world : World}
    (inside : ∀ replacement ∈ replacements, ∀ request ∈ replacement.spawns,
      world.contains request.position = true) :
    (∃ made, replaceAll world replacements = .ok made) ∨
      replaceAll world replacements = .error .sumOverflow := by
  -- A replacement is skipped, or it creates on the grid that it found.
  induction replacements generalizing world with
  | nil => exact .inl ⟨_, rfl⟩
  | cons first rest ih =>
    have further := fun replacement member => inside replacement (List.mem_cons_of_mem first member)
    unfold replaceAll
    split
    · exact ih further
    · rename_i entity remaining taken
      obtain ⟨_, grid, _⟩ := World.take?_eq_some taken
      rw [← grid] at further
      refine bind_total (World.createAll_total (grid ▸ inside first (.head _)))
        fun made created => ?_
      obtain ⟨grid', _⟩ := World.createAll_eq_ok created
      rw [← grid'] at further
      exact bind_total (ih further) fun later _ => .inl ⟨_, rfl⟩

end Outcome

/-- What a search of a consistent world finds are sentences on its board. -/
theorem World.Consistent.isSentence_of_search {world : World} (consistent : world.Consistent)
    {config : Config} {findings : Findings} (searched : world.search config = .ok findings) :
    ∀ phrase ∈ findings.phrases,
      Sentence.IsSentence world.board.Shows config phrase.words := by
  -- The phrases are among the surviving paths, and these are sentences.
  obtain ⟨kept, found, _, survives, same, collects, _⟩ :=
    Board.search_spec consistent.single_board config
  rw [search, same] at searched
  cases searched
  exact fun phrase listed => ((survives phrase).mp (collects.mem_paths phrase listed)).1.1.1

/-- Indicators belong on cells of the grid. -/
theorem World.Consistent.contains_of_siteOf {world : World} (consistent : world.Consistent)
    {config : Config} {findings : Findings} (searched : world.search config = .ok findings)
    {indicator : Indicator} {site : Cell}
    (belongs : siteOf findings.phrases indicator = some site) : world.contains site = true := by
  -- The site is the cell of a word of a sentence.
  obtain ⟨word, ⟨before, phrase, after, front, back, phrases, _, states, _⟩, rfl⟩ :=
    exists_firstStates belongs
  obtain ⟨parse, valid, words⟩ :=
    consistent.isSentence_of_search searched phrase (by simp [phrases])
  refine (valid.shown word ?_).1
  rw [words]
  exact (Phrase.mem_predicates_iff.mp states.1).1

/-- A reading succeeds on a consistent world, unless the clock passes its last second. -/
theorem RuleReader.advance_total (reader : RuleReader) {world : World}
    (consistent : world.Consistent) (config : Config) (elapsed : Duration) :
    (∃ result, reader.advance world config elapsed = .ok result) ∨
      reader.clock.add elapsed = .error .clockOverflow := by
  rcases reader.clock.add_total elapsed with ⟨clock, passed⟩ | failed
  · left
    -- A search succeeds on every world that is consistent.
    obtain ⟨_, findings, _, _, searched, _, checked⟩ :=
      Board.search_spec consistent.single_board config
    have filled : ∀ phrase ∈ findings.phrases, phrase.words ≠ [] := fun phrase listed =>
      (consistent.isSentence_of_search searched phrase listed).ne_nil
    -- The first new phrase is a sentence and has a first word.
    have reported : ∃ reading,
        reader.readingOf world config findings clock = .ok reading := by
      unfold readingOf
      dsimp only
      split
      · rename_i phrase new
        have some := filled phrase (List.mem_of_find?_eq_some new)
        unfold Phrase.firstCell
        split
        · exact ⟨_, rfl⟩
        · exact absurd ‹_› some
      · exact ⟨_, rfl⟩
    obtain ⟨reading, reported⟩ := reported
    unfold advance
    cases reader.isStale with
    | false => exact ⟨_, by rw [passed]; rfl⟩
    | true =>
      refine ⟨(reading, ⟨false, .ofPhrases findings.phrases, findings,
        findings.phrases.map Phrase.spelling, reader.readingCount + 1, clock⟩), ?_⟩
      rw [passed]
      simp only [Bind.bind, Except.bind, World.search, searched, checked, reported]
      rfl
  · -- The clock is the only other step that can fail.
    exact .inr failed

/-- An applier applies the rules whenever its clock runs. -/
theorem RuleApplier.exists_advance {applier : RuleApplier} {elapsed clock : Duration}
    (passed : applier.clock.add elapsed = .ok clock) (world : World) (rulebook : Rulebook)
    (config : Config) :
    ∃ outcome after equipped,
      applier.advance world rulebook config elapsed = .ok (outcome, after, equipped) ∧
        after.clock = clock := by
  -- After the clock nothing can fail.
  unfold advance
  rw [passed]
  exact ⟨_, _, _, rfl, rfl⟩

namespace Engine

/-- A round runs out of time or of identifiers. -/
inductive RunsOut (engine : Engine) (world : World) (elapsed : Duration) : Prop where
  /-- The clock of the reader passes its last second. -/
  | reading (failed : engine.reader.clock.add elapsed = .error .clockOverflow)
  /-- The clock of the applier passes its last second. -/
  | applying (failed : engine.applier.clock.add elapsed = .error .clockOverflow)
  /-- There are not enough identifiers for the indicators that the reading asks for. -/
  | indicators {reading : Reading} {reader : RuleReader}
      (read : engine.reader.advance world engine.config elapsed = .ok (reading, reader))
      (failed : reading.carryOut world = .error .sumOverflow)
  /-- There are not enough identifiers for the replacements that the rules ask for. -/
  | replacements {reading : Reading} {reader : RuleReader} {ids : List EntityId}
      {brought equipped : World} {outcome : Outcome} {applier : RuleApplier}
      (read : engine.reader.advance world engine.config elapsed = .ok (reading, reader))
      (carried : reading.carryOut world = .ok (ids, brought))
      (applied : engine.applier.advance brought reader.rulebook engine.config elapsed =
        .ok (outcome, applier, equipped))
      (failed : outcome.carryOut equipped = .error .sumOverflow)

variable {engine : Engine} {world : World} {elapsed : Duration}

/-- A reading of a consistent world asks for indicators on cells of the grid. -/
theorem contains_of_reading (consistent : world.Consistent) {reading : Reading}
    {reader : RuleReader}
    (read : engine.reader.advance world engine.config elapsed = .ok (reading, reader)) :
    ∀ request ∈ reading.indicators.added, world.contains request.position = true := by
  -- An update without a reading asks for nothing; a reading asks for indicators at sites.
  intro request asked
  cases stale : engine.reader.isStale with
  | false =>
    obtain ⟨_, _, none⟩ := RuleReader.advance_of_fresh stale read
    rw [none] at asked
    cases asked
  | true =>
    obtain ⟨_, searched, _, _, moves⟩ := RuleReader.advance_of_stale stale read
    rw [moves] at asked
    obtain ⟨indicator, _, placed⟩ := List.mem_filterMap.mp asked
    obtain ⟨site, belongs, rfl⟩ := Option.map_eq_some_iff.mp placed
    exact consistent.contains_of_siteOf searched belongs

/-- What a reading of a consistent world asks for can be carried out while identifiers last. -/
theorem carryOut_total (consistent : world.Consistent) {reading : Reading} {reader : RuleReader}
    (read : engine.reader.advance world engine.config elapsed = .ok (reading, reader)) :
    (∃ made, reading.carryOut world = .ok made) ∨
      reading.carryOut world = .error .sumOverflow := by
  -- Erasing keeps the grid, so that only identifiers can be wanting.
  refine World.createAll_total ?_
  rw [World.toGrid_eraseAll]
  exact contains_of_reading consistent read

/-- The rules ask for replacements on cells of the grid: they stand where the old entities stood. -/
theorem contains_of_replacements (consistent : world.Consistent) (rulebook : Rulebook)
    (removals : List Removal) :
    ∀ replacement ∈ (world.mapEntities rulebook.equip).replacements rulebook removals,
      ∀ request ∈ replacement.spawns, world.contains request.position = true := by
  -- Equipping moves nobody, and the new entities come where the old one is.
  intro replacement asked request spawned
  obtain ⟨entity, live, _, turned⟩ := World.of_mem_spawns asked spawned
  obtain ⟨_, _, _, _, made⟩ := Rulebook.mem_replacementsOf_iff.mp turned
  rw [(Entity.of_turnedInto? made).1]
  exact (consistent.mapEntities (Rulebook.position_equip rulebook)).inside entity live

/-- What the rules ask for on a consistent world can be carried out while identifiers last. -/
theorem carryOut_total_of_advance {applier after : RuleApplier} {equipped : World}
    {rulebook : Rulebook} {config : Config} {outcome : Outcome} (consistent : world.Consistent)
    (applied : applier.advance world rulebook config elapsed = .ok (outcome, after, equipped)) :
    (∃ made, outcome.carryOut equipped = .ok made) ∨
      outcome.carryOut equipped = .error .sumOverflow := by
  -- Neither equipping nor erasing changes the grid.
  obtain ⟨rfl, _, replacements, _⟩ := RuleApplier.advance_eq_ok applied
  refine Outcome.replaceAll_total ?_
  rw [replacements, World.toGrid_eraseAll]
  exact contains_of_replacements consistent rulebook outcome.removals

/-- On a world that a host can bring about a round succeeds, unless it runs out of time or of
identifiers. -/
theorem round_total (engine : Engine) (elapsed : Duration) (reachable : world.Reachable) :
    (∃ round, engine.round world elapsed = .ok round) ∨ engine.RunsOut world elapsed := by
  -- The four steps of a round are tried in order, and each has one way to fail.
  have consistent := reachable.consistent
  rcases engine.reader.advance_total consistent engine.config elapsed with
    ⟨⟨reading, reader⟩, read⟩ | failed
  · rcases carryOut_total consistent read with ⟨⟨ids, brought⟩, carried⟩ | failed
    · rcases engine.applier.clock.add_total elapsed with ⟨clock, passed⟩ | failed
      · obtain ⟨outcome, applier, equipped, applied, _⟩ :=
          RuleApplier.exists_advance passed brought reader.rulebook engine.config
        have consistent' := ((reachable.eraseAll _).createAll carried).consistent
        rcases carryOut_total_of_advance consistent' applied with
          ⟨⟨created, left⟩, replaced⟩ | failed
        · exact .inl ⟨_, round_of_steps read carried applied replaced⟩
        · exact .inr (.replacements read carried applied failed)
      · exact .inr (.applying failed)
    · exact .inr (.indicators read failed)
  · exact .inr (.reading failed)

/-- A round that runs out fails. -/
theorem RunsOut.round_eq_error (out : engine.RunsOut world elapsed) :
    ∃ error, engine.round world elapsed = .error error := by
  cases out with
  | reading failed => exact ⟨_, by rw [Engine.round, RuleReader.advance, failed]; rfl⟩
  | applying failed =>
    unfold Engine.round RuleApplier.advance
    cases engine.reader.advance world engine.config elapsed with
    | error error => exact ⟨error, rfl⟩
    | ok read =>
      simp only [Bind.bind, Except.bind]
      cases read.1.carryOut world with
      | error error => exact ⟨error, rfl⟩
      | ok made =>
        rw [failed]
        exact ⟨_, rfl⟩
  | indicators read failed =>
    unfold Engine.round
    rw [read]
    simp only [Bind.bind, Except.bind, failed]
    exact ⟨_, rfl⟩
  | @replacements _ _ _ _ _ outcome _ read carried applied failed =>
    -- An outcome that asks for nothing can be carried out, so this one asks for something.
    have changed : outcome.changesWorld = true := by
      by_contra unchanged
      rw [RuleApplier.carryOut_of_quiet applied (eq_false_of_ne_true unchanged)] at failed
      cases failed
    unfold Engine.round
    rw [read]
    simp only [Bind.bind, Except.bind, carried, applied, changed, if_true, failed]
    exact ⟨_, rfl⟩

/-- A settling run runs out of time or of identifiers in one of its rounds. -/
def Exhausts (engine : Engine) (world : World) (elapsed : Duration) : Nat → Prop
  -- Time passes in the first round alone, and a later round is asked only if there is one.
  | 0 => engine.RunsOut world elapsed
  | further + 1 => engine.RunsOut world elapsed ∨
    ∃ round, engine.round world elapsed = .ok round ∧ round.outcome.changesWorld = true ∧
      round.engine.Exhausts round.world .zero further

/-- A settling run that runs out fails. -/
theorem Exhausts.settle_eq_error {further : Nat} (out : engine.Exhausts world elapsed further) :
    ∃ error, engine.settle world elapsed further = .error error := by
  -- The run fails with the round that runs out.
  induction further generalizing engine world elapsed with
  | zero =>
    obtain ⟨error, failed⟩ := RunsOut.round_eq_error out
    exact ⟨error, settle_of_error failed 0⟩
  | succ further ih =>
    rcases out with out | ⟨round, ran, changed, later⟩
    · obtain ⟨error, failed⟩ := out.round_eq_error
      exact ⟨error, settle_of_error failed _⟩
    · obtain ⟨error, failed⟩ := ih later
      exact ⟨error, by simp only [settle, ran, changed, failed, Bind.bind, Except.bind, if_true]⟩

/-- On a world that a host can bring about and whose entities are plain a settling run succeeds,
unless it runs out of time or of identifiers. -/
theorem settle_total (engine : Engine) (elapsed : Duration) (further : Nat)
    (reachable : world.Reachable) (plain : world.IsPlain) :
    (∃ result, engine.settle world elapsed further = .ok result) ∨
      engine.Exhausts world elapsed further := by
  -- Each round leaves a world that the next one can start from.
  induction further generalizing engine world elapsed with
  | zero =>
    rcases engine.round_total elapsed reachable with ⟨round, ran⟩ | out
    · exact .inl ⟨_, settle_of_last ran (.inr rfl)⟩
    · exact .inr out
  | succ further ih =>
    rcases engine.round_total elapsed reachable with ⟨round, ran⟩ | out
    · cases changed : round.outcome.changesWorld with
      | false => exact .inl ⟨_, settle_of_last ran (.inl changed)⟩
      | true =>
        have keeps := round_keeps reachable plain ran
        rcases ih round.engine .zero keeps.reachable keeps.plain with ⟨result, later⟩ | out
        · exact .inl ⟨_, settle_of_changed ran changed later⟩
        · exact .inr (.inr ⟨round, ran, changed, out⟩)
    · exact .inr (.inl out)

end Engine

end WordTiles
