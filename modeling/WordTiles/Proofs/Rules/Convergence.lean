import WordTiles.Proofs.Rules.Totality
import WordTiles.Proofs.Rules.Turning

/-! Convergence: while the rules leave texts alone and their transforms have no cycle, a tick
settles after as many rounds as the longest chain of transforms has steps, and two more. -/

namespace WordTiles

namespace Engine

/-- A settling run on its way: the words still say what they said, they are on texts, and no
governed entity has more than so many steps to go until it turns into nothing else. -/
structure Approaches (engine : Engine) (world : World) (findings : Findings) (steps : Nat) :
    Prop where
  reachable : world.Reachable
  stale : engine.reader.isStale = true
  searched : world.search engine.config = .ok findings
  words : world.WordsOnTexts
  within : ∀ entity ∈ world.entities, entity.isGoverned = true →
    (Rulebook.ofPhrases findings.phrases).Within steps entity.category

namespace Approaches

variable {engine : Engine} {world : World} {findings : Findings} {steps : Nat}
  {elapsed : Duration} {round : Round}

/-- The round goes by the rules that the words state. It finds every governed entity as it was, with
so many steps to go under these rules. -/
theorem exists_brought (approaches : engine.Approaches world findings steps)
    (ran : engine.round world elapsed = .ok round) :
    ∃ brought, round.Applies engine brought ∧ brought.Reachable ∧ brought.WordsOnTexts ∧
      brought.board = world.board ∧ round.engine.rulebook = .ofPhrases findings.phrases ∧
        ∀ entity ∈ brought.entities, entity.isGoverned = true →
          entity ∈ world.entities ∧ round.engine.rulebook.Within steps entity.category := by
  obtain ⟨brought, applies, either⟩ := round_eq_ok ran
  rcases either with ⟨_, reads⟩ | ⟨fresh, _⟩
  · obtain ⟨reachable, plain, board⟩ := reads.spec approaches.reachable approaches.words.isPlain
    have rules : round.engine.rulebook = .ofPhrases findings.phrases := by
      rw [rulebook, reads.inStep.rulebook,
        ← Except.ok.inj (approaches.searched.symm.trans reads.searched)]
    have before (entity : Entity) (live : entity ∈ brought.entities)
        (governed : entity.isGoverned = true) : entity ∈ world.entities :=
      (reads.mem_iff_of_isGoverned governed).mp live
    refine ⟨brought, applies, reachable, fun entity live bears => ?_, board, rules,
      fun entity live governed => ⟨before entity live governed, ?_⟩⟩
    · -- A word is no indicator, so it was there before.
      have none : entity.indicator = none := by
        refine (plain entity live).resolve_left fun wordless => ?_
        rw [Entity.bearsWord, wordless] at bears
        cases bears
      exact approaches.words entity (before entity live (Entity.isGoverned_iff.mpr none)) bears
    · rw [rules]
      exact approaches.within entity (before entity live governed) governed
  · rw [approaches.stale] at fresh
    cases fresh

/-- A round that changes the world comes one step nearer. -/
theorem next (approaches : engine.Approaches world findings steps)
    (spares : (Rulebook.ofPhrases findings.phrases).SparesTexts)
    (ran : engine.round world elapsed = .ok round) (changed : round.outcome.changesWorld = true) :
    round.engine.Approaches round.world findings (steps - 1) := by
  obtain ⟨brought, applies, reachable, words, board, rules, governed⟩ :=
    approaches.exists_brought ran
  rw [← rules] at spares
  obtain ⟨board', words'⟩ := applies.board_eq spares words
  have keeps := applies.keeps reachable words.isPlain
  refine ⟨keeps.reachable, applies.stale.trans changed, ?_, words', fun entity live shows => ?_⟩
  · rw [World.search, board', board, keeps.config]
    exact approaches.searched
  · rw [← rules]
    rcases applies.of_mem live with ⟨before, stood, rfl, spared, kept⟩ | ⟨before, stood, leads, new⟩
    · -- Whoever stays turns into nothing, or it would have been replaced.
      refine Rulebook.Within.of_final (fun target turns => ?_) _
      refine spares.not_turnsInto ?_ turns
      by_contra some
      have equipped : round.engine.rulebook.equip before ∈
          (brought.mapEntities round.engine.rulebook.equip).entities :=
        Rulebook.mem_entities_equip_iff.mpr ⟨before, stood, rfl⟩
      obtain ⟨replacement, listed, same⟩ :=
        World.exists_mem_replacements equipped shows spared some
      rw [← applies.replacements] at listed
      exact kept replacement listed same
    · -- Whoever is new is one step behind somebody who has gone.
      obtain ⟨turns, _⟩ := spares.of_mem_replacementsOf new
      rw [Rulebook.category_equip] at turns
      obtain ⟨_, within⟩ := governed before stood leads
      cases steps with
      | zero => exact absurd turns within.not_turnsInto
      | succ steps => exact within.next turns

/-- A round in which nobody turns into anything leaves a calm world. -/
theorem calm (approaches : engine.Approaches world findings 0)
    (spares : (Rulebook.ofPhrases findings.phrases).SparesTexts)
    (ran : engine.round world elapsed = .ok round) :
    round.world.Calm (.ofPhrases findings.phrases) engine.config.destruction := by
  obtain ⟨brought, applies, reachable, _, _, rules, governed⟩ := approaches.exists_brought ran
  rw [← rules] at spares ⊢
  have consistent := reachable.consistent.mapEntities (Rulebook.position_equip
    round.engine.rulebook)
  -- Everybody who is left was equipped and not removed.
  have stays (entity : Entity) (live : entity ∈ round.world.entities) :
      entity ∈ (brought.mapEntities round.engine.rulebook.equip).entities ∧
        round.engine.rulebook.equip entity = entity ∧
          ∀ removal ∈ round.outcome.removals, removal.id ≠ entity.id := by
    rcases applies.of_mem live with ⟨before, stood, rfl, spared, _⟩ | ⟨before, stood, leads, new⟩
    · exact ⟨Rulebook.mem_entities_equip_iff.mpr ⟨before, stood, rfl⟩,
        Rulebook.equip_equip _ _, spared⟩
    · obtain ⟨turns, _⟩ := spares.of_mem_replacementsOf new
      rw [Rulebook.category_equip] at turns
      obtain ⟨_, within⟩ := governed before stood leads
      exact absurd turns within.not_turnsInto
  -- Two entities that would meet have been struck in this round already.
  intro destroyer one victim other leads leads' together differ rule listed strikes
  obtain ⟨live, same, spared⟩ := stays destroyer one
  obtain ⟨live', same', spared'⟩ := stays victim other
  rw [same, same'] at strikes
  obtain ⟨removal, struck, either⟩ := consistent.exists_mem_destruction listed live live' leads
    leads' together differ strikes.1 strikes.2
  rw [← applies.removals] at struck
  exact either.elim (spared removal struck) (spared' removal struck)

/-- In a calm world in which nobody turns into anything a round changes nothing. -/
theorem quiet (approaches : engine.Approaches world findings 0)
    (spares : (Rulebook.ofPhrases findings.phrases).SparesTexts)
    (calm : world.Calm (.ofPhrases findings.phrases) engine.config.destruction)
    (ran : engine.round world elapsed = .ok round) : round.outcome.changesWorld = false := by
  -- The entities that the rules are applied to are those of the world, up to indicators.
  obtain ⟨brought, applies, reachable, _, _, rules, governed⟩ := approaches.exists_brought ran
  rw [← rules] at spares calm
  have calm' : brought.Calm round.engine.rulebook engine.config.destruction :=
    fun destroyer one victim other leads leads' =>
      calm destroyer (governed destroyer one leads).1 victim (governed victim other leads').1
        leads leads'
  -- Nobody is struck, and nobody turns.
  have removals := applies.removals
  have replacements := applies.replacements
  rw [calm'.destruction_eq_nil reachable.consistent] at removals
  rw [removals, World.replacements_eq_nil_iff.mpr] at replacements
  · rw [applies.changes, removals, replacements]
    rfl
  · intro entity live leads
    obtain ⟨before, stood, rfl⟩ := Rulebook.mem_entities_equip_iff.mp live
    rw [Rulebook.isGoverned_equip] at leads
    obtain ⟨_, within⟩ := governed before stood leads
    -- Whoever turns into somebody would have a further step to go.
    by_contra some
    obtain ⟨request, asked⟩ := List.exists_mem_of_ne_nil _ some
    obtain ⟨turns, _⟩ := spares.of_mem_replacementsOf asked
    rw [Rulebook.category_equip] at turns
    exact within.not_turnsInto turns

variable {further : Nat} {after : Engine} {left : World} {record : TickRecord}

/-- In a calm world in which nobody turns into anything a settling run ends with its first round. -/
theorem ends_of_calm (approaches : engine.Approaches world findings 0)
    (spares : (Rulebook.ofPhrases findings.phrases).SparesTexts)
    (calm : world.Calm (.ofPhrases findings.phrases) engine.config.destruction)
    (ran : engine.settle world elapsed further = .ok (record, after, left)) :
    record.capped = false ∧ record.rounds = 1 := by
  -- The first round changes nothing, and so it is the last.
  obtain ⟨round, first, either⟩ := settle_eq_ok ran
  have quiet := approaches.quiet spares calm first
  rcases either with ⟨_, rfl, _⟩ | ⟨changed, _⟩
  · exact ⟨quiet, rfl⟩
  · rw [quiet] at changed
    cases changed

/-- A settling run with so many steps to go ends by itself after as many rounds and two more: a
round for each step, one for what the last of these brings together, and one that changes
nothing. -/
theorem settle_ends_within (approaches : engine.Approaches world findings steps)
    (spares : (Rulebook.ofPhrases findings.phrases).SparesTexts) (room : steps + 1 ≤ further)
    (ran : engine.settle world elapsed further = .ok (record, after, left)) :
    record.capped = false ∧ record.rounds.toNat ≤ steps + 2 := by
  -- By induction on the steps to go, of which every round that changes the world takes one.
  induction steps generalizing engine world elapsed further record with
  | zero =>
    obtain ⟨further, rfl⟩ := Nat.exists_eq_add_of_le' room
    obtain ⟨round, first, ⟨quiet, rfl, _⟩ | ⟨changed, fewer, rest, same, later, rfl⟩⟩ :=
      settle_eq_ok ran
    · exact ⟨quiet.resolve_right further.succ_ne_zero, show (1 : UInt32).toNat ≤ 2 by decide⟩
    · obtain ⟨_, applies, _⟩ := round_eq_ok first
      -- With no step to go the rules no longer turn anybody, and one more round finds that out.
      have calm := approaches.calm spares first
      rw [← applies.config] at calm
      obtain ⟨uncapped, one⟩ :=
        (approaches.next spares first changed).ends_of_calm spares calm later
      refine ⟨uncapped, ?_⟩
      rw [TickRecord.append, one]
      exact show (1 + 1 : UInt32).toNat ≤ 2 by decide
  | succ steps ih =>
    obtain ⟨further, rfl⟩ := Nat.exists_eq_add_of_le' (Nat.le_of_add_left_le room)
    obtain ⟨round, first, ⟨quiet, rfl, _⟩ | ⟨changed, fewer, rest, same, later, rfl⟩⟩ :=
      settle_eq_ok ran
    · exact ⟨quiet.resolve_right further.succ_ne_zero, Nat.le_add_left 1 (steps + 2)⟩
    · -- The other rounds are one step closer, and so fewer by one.
      cases same
      obtain ⟨uncapped, few⟩ :=
        ih (approaches.next spares first changed) (Nat.le_of_succ_le_succ room) later
      refine ⟨uncapped, ?_⟩
      calc (round.record.append rest).rounds.toNat
        _ = (1 + rest.rounds.toNat) % 2 ^ 32 := UInt32.toNat_add 1 rest.rounds
        _ ≤ 1 + rest.rounds.toNat := Nat.mod_le _ _
        _ ≤ 1 + (steps + 2) := Nat.add_le_add_left few 1
        _ = steps + 1 + 2 := Nat.add_comm _ _

end Approaches

/-- Let the rules that the words state leave texts alone, and let no chain of categories that turn
into one another have more than so many steps, so that there is no cycle. Then a tick whose cap
leaves room for two more rounds than that ends by itself within these, whatever the world and the
rules of destruction are, unless it runs out of time or of identifiers. -/
theorem tick_converges {engine : Engine} {world : World} {findings : Findings} {longest : Nat}
    (elapsed : Duration) (reachable : world.Reachable) (stale : engine.reader.isStale = true)
    (words : world.WordsOnTexts) (searched : world.search engine.config = .ok findings)
    (spares : (Rulebook.ofPhrases findings.phrases).SparesTexts)
    (chains : ∀ chain : List Category,
      chain.IsChain (Rulebook.ofPhrases findings.phrases).TurnsInto → chain.length ≤ longest + 1)
    (room : longest + 2 ≤ engine.config.maxRounds.toNat) :
    (∃ record after left, engine.tick world elapsed = .ok (record, after, left) ∧
        record.rounds.toNat ≤ longest + 2 ∧ record.capped = false) ∨
      engine.Exhausts world elapsed (engine.config.maxRounds.toNat - 1) := by
  -- A settling run succeeds or runs out, and if it succeeds every round takes one step off the
  -- chains.
  refine (engine.settle_total elapsed _ reachable words.isPlain).imp_left ?_
  rintro ⟨⟨record, after, left⟩, ran⟩
  have approaches : engine.Approaches world findings longest :=
    ⟨reachable, stale, searched, words, fun entity _ _ chain linked =>
      Nat.le_of_succ_le_succ (chains (entity.category :: chain) linked)⟩
  obtain ⟨uncapped, few⟩ := approaches.settle_ends_within spares (Nat.le_sub_one_of_lt room) ran
  exact ⟨record, after, left, ran, few, uncapped⟩

/-- When a rock can turn into a wall and a wall into nothing, three rounds are enough. -/
theorem tick_converges_rockOnRule : ∃ bare ids world record after left,
    World.empty 3 1 = .ok bare ∧ bare.createAll rockOnRule = .ok (ids, world) ∧
      unread.tick world .zero = .ok (record, after, left) ∧ record.rounds.toNat ≤ 3 ∧
        record.capped = false := by
  obtain ⟨bare, ids, world, _, _, _, empty, created, reachable, _, ran, _⟩ := exists_tick_rockOnRule
  have known : (do
      let bare ← World.empty 3 1
      let made ← bare.createAll rockOnRule
      let findings ← made.2.search unread.config
      return findings.phrases.flatMap Phrase.statements : Except Error _) =
        .ok [(.rock, .transform .wall)] := by
    cbv
  rw [empty] at known
  simp only [Bind.bind, Except.bind, created] at known
  obtain ⟨findings, searched, known⟩ := bind_eq_ok_iff.mp known
  have statements := Except.ok.inj known
  -- The one statement is the one step from a category to another.
  have step {category target : Category}
      (listed : target ∈ ((Rulebook.ofPhrases findings.phrases).grants category).transforms) :
      category = .rock ∧ target = .wall := by
    have stated := List.mem_flatMap.mpr (Rulebook.mem_transforms_ofPhrases_iff.mp listed)
    rw [statements] at stated
    cases List.mem_singleton.mp stated
    exact ⟨rfl, rfl⟩
  have spares : (Rulebook.ofPhrases findings.phrases).SparesTexts := by
    constructor
    · rw [Rulebook.grants_ofPhrases, statements]
      rfl
    · intro category listed
      cases (step listed).2
  have chains : ∀ chain : List Category,
      chain.IsChain (Rulebook.ofPhrases findings.phrases).TurnsInto → chain.length ≤ 1 + 1 := by
    intro chain linked
    cases chain with
    | nil => exact Nat.zero_le 2
    | cons category rest =>
      -- Only a rock has a step to go.
      have within := Rulebook.Within.of_rank (fun category => if category = .rock then 1 else 0)
        (fun turns => by rw [(step turns.listed).1, (step turns.listed).2]; decide) category
      refine Nat.succ_le_succ ((within rest linked).trans ?_)
      split
      · exact Nat.le_refl 1
      · exact Nat.zero_le 1
  have words : world.WordsOnTexts := by
    refine World.WordsOnTexts.createAll ?_ (by decide) created
    cases empty
    intro entity live
    cases live
  rcases tick_converges .zero reachable rfl words searched spares chains (by decide) with
    ⟨record, after, left, settled, few, uncapped⟩ | out
  · exact ⟨bare, ids, world, record, after, left, empty, created, settled, few, uncapped⟩
  · -- This tick is known to succeed, so it does not run out.
    obtain ⟨error, failed⟩ := out.settle_eq_error
    rw [tick, failed] at ran
    cases ran

end Engine

end WordTiles
