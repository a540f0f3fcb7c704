import WordTiles.Proofs.Sentence.Growth
import WordTiles.Proofs.Sentence.Listing

/-! Choices: where more than one word or turn continues a draft, the forks are listed in the order
of what they choose. -/

namespace WordTiles

/-- A word is read from a layer of the stack on its cell, counted from the bottom. -/
def Board.LiesOn (board : Board) (word : PlacedWord) (layer : Nat) : Prop :=
  -- Layers count word tiles only, since a board holds nothing else.
  (board.tiles word.position)[layer]? = some ⟨word.entity, word.word⟩

namespace Direction

/-- The place of a direction among all. -/
def rank (direction : Direction) : Nat :=
  -- The order of the list of all directions decides.
  all.idxOf direction

/-- The place of a direction among the turns from another: straight on comes first, and then the
others as they come among all. -/
def turnRank (heading turned : Direction) : Nat :=
  -- Adding one leaves zero to the way straight on.
  if turned = heading then 0 else turned.rank + 1

end Direction

namespace Draft

variable {board : Board} {config : Config} {draft : Draft}

/-- What a draft chooses when it grows into a fork: the layer from which it reads the next word, or,
after a predicate, the layer of the conjunction, the turn there and the layer of the next
predicate. -/
inductive Chooses (board : Board) (config : Config) (draft : Draft) : List Nat → Draft → Prop where
  | word {fork : Draft} {layer : Nat} (grows : Grows board config draft draft.phase fork)
      (one : fork.earlier = draft.trail) (lies : board.LiesOn fork.last layer) :
      Chooses board config draft [layer] fork
  | joined {fork : Draft} {joint : PlacedWord} {layer further : Nat}
      (grows : Grows board config draft draft.phase fork)
      (two : fork.earlier = joint :: draft.trail) (below : board.LiesOn joint layer)
      (lies : board.LiesOn fork.last further) :
      Chooses board config draft [layer, draft.heading.turnRank fork.heading, further] fork

/-- A draft grows into what it chooses. -/
theorem Chooses.grows {choice : List Nat} {fork : Draft}
    (chooses : draft.Chooses board config choice fork) :
    Grows board config draft draft.phase fork := by
  -- Each choice comes with the growth that it makes.
  cases chooses with
  | word grows _ _ => exact grows
  | joined grows _ _ _ => exact grows

/-- The turns are tried in the order of their ranks. -/
theorem pairwise_turns (config : Config) (heading : Direction) :
    (turns config heading).Pairwise (heading.turnRank · < heading.turnRank ·) := by
  -- Without bends there is one turn, and with them one list for each heading.
  unfold turns
  cases config.mayBend with
  | false => simp
  | true => cases heading <;> decide

/-- The forks that read one word of a stack are listed by its layers. -/
theorem listedBy_layers {next : Cell} {make : Tile → Option Draft}
    (reads : ∀ tile fork, make tile = some fork → fork.last.position = next ∧
      tile = ⟨fork.last.entity, fork.last.word⟩ ∧ fork.earlier = draft.trail)
    (spec : ∀ fork, fork ∈ (board.tiles next).filterMap make ↔
      Grows board config draft draft.phase fork) :
    ListedBy ((board.tiles next).filterMap make) (draft.Chooses board config) := by
  refine ((ListedBy.places (board.tiles next)).filterMap make).singleton.congr
    fun choice fork => ⟨?_, fun chooses => ?_⟩
  · rintro ⟨layer, rfl, tile, lies, made⟩
    obtain ⟨here, same, one⟩ := reads tile fork made
    have listed := List.mem_filterMap.mpr ⟨tile, List.mem_of_getElem? lies, made⟩
    exact .word ((spec fork).mp listed) one (by rw [Board.LiesOn, here, lies, same])
  · -- The word of a fork tells the tile from which it is read.
    obtain ⟨tile, _, made⟩ := List.mem_filterMap.mp ((spec fork).mpr chooses.grows)
    obtain ⟨here, same, one⟩ := reads tile fork made
    cases chooses with
    | word _ _ lies =>
      rw [Board.LiesOn, here, ← same] at lies
      exact ⟨_, rfl, tile, lies, made⟩
    | joined _ two _ _ =>
      rw [one] at two
      exact absurd (congrArg List.length two) (by simp)

/-- The continuations by the words of one cell are listed by its layers. -/
theorem listedBy_continuations {next : Cell} {part : SentencePart} {phase : Phase}
    {test : Word → Bool}
    (spec : ∀ fork, fork ∈ draft.continuations board next part phase test ↔
      Grows board config draft draft.phase fork) :
    ListedBy (draft.continuations board next part phase test) (draft.Chooses board config) := by
  -- Each tile of the cell is tested on its own.
  have each : draft.continuations board next part phase test =
      (board.tiles next).filterMap fun tile =>
        if !draft.uses next part && test tile.word then some (draft.push next tile part phase)
        else none := by
    unfold continuations
    split
    · rename_i used
      simp [used]
    · rename_i free
      rw [← List.filterMap_eq_map, List.filterMap_filter]
      simp [free]
  rw [each] at spec ⊢
  refine listedBy_layers (fun tile fork made => ?_) spec
  split at made <;> cases made
  exact ⟨rfl, rfl, rfl⟩

/-- The predicates that are read at one landing are listed by their layers. -/
theorem listedBy_predicates (board : Board) (draft joined : Draft) (relation : Relation)
    (landing : Direction × Cell) :
    ListedBy (if draft.uses landing.2 .predicate then []
      else ((board.tiles landing.2).filter fun tile => relation.allowsPredicate tile.word).map
        fun tile =>
          { joined.push landing.2 tile .predicate draft.phase with heading := landing.1 })
      fun choice fork => ∃ layer : Nat, choice = [layer] ∧ draft.uses landing.2 .predicate = false ∧
        ∃ tile, ((board.tiles landing.2)[layer]? = some tile ∧
          relation.allowsPredicate tile.word = true) ∧
            { joined.push landing.2 tile .predicate draft.phase with heading := landing.1 } =
              fork := by
  -- A place that was used gives none, and else the tiles are listed by their places.
  split
  · rename_i used
    exact .nil fun _ _ ⟨_, _, free, _⟩ => absurd (used.symm.trans free) (by simp)
  · rename_i free
    refine (((ListedBy.places _).filter _).map _).singleton.congr fun choice fork => ?_
    simp [free]

/-- The forks of a complete draft are listed by the layer of the conjunction, then by the turn, and
then by the layer of the predicate. -/
theorem listedBy_afterPredicate {relation : Relation} {joint : Cell} {forks : List Draft}
    (phase : draft.phase = .predicate relation)
    (led : draft.last.position.neighbor draft.heading = .ok joint)
    (inside : board.contains joint = true)
    (built : draft.afterPredicate board config relation joint = .ok forks)
    (spec : ∀ fork, fork ∈ forks ↔ Grows board config draft draft.phase fork) :
    ListedBy forks (draft.Chooses board config) := by
  unfold afterPredicate at built
  split at built
  · cases built
    exact .nil fun _ fork chooses => List.not_mem_nil ((spec fork).mpr chooses.grows)
  · rename_i unused
    simp only [landings_eq inside, Bind.bind, Except.bind, Pure.pure, Except.pure,
      Except.ok.injEq] at built
    subst built
    -- The forks are made in three nested loops, and each of them is listed by its own keys.
    have listed := ((ListedBy.places (board.tiles joint)).filter (·.word.isConjunction)).flatMap
      fun tile _ => ((ListedBy.keys (pairwise_turns config draft.heading)).filterMap
        fun direction => if board.contains (joint.beyond direction)
          then some (direction, joint.beyond direction) else none).flatMap
            fun landing _ => listedBy_predicates board draft
              (draft.push joint tile .conjunction draft.phase) relation landing
    refine listed.congr fun choice fork => ⟨fun given => ?_, fun chooses => ?_⟩
    · have grown := (spec fork).mp (listed.mem_iff.mpr ⟨choice, given⟩)
      obtain ⟨_, _, tile, rfl, ⟨below, _⟩, _, _, landing, rfl, ⟨turned, ⟨_, rfl⟩, lands⟩, _, rfl, _,
        last, ⟨lies, _⟩, rfl⟩ := given
      split at lands <;> cases lands
      exact .joined grown rfl below lies
    · -- The two words of the fork and the turn between them are the choice.
      have grown := chooses.grows
      rw [phase] at grown
      cases grown with
      | @joined _ word _ turned reaches isJoint mayTurn left shows free inPart allowed =>
        obtain ⟨tile, _, part, rfl, _⟩ := reaches.exists_tile led
        obtain ⟨spelled, position, entity, part⟩ := word
        cases inPart
        have isAnd : tile.word = .and := isJoint.2
        cases chooses with
        | word _ one _ => exact absurd (congrArg List.length one) (by simp)
        | joined _ two below lies =>
          cases isJoint.1
          cases two
          refine ⟨_, _, tile, rfl, ⟨below, by simp [isAnd, Word.isConjunction]⟩, _, _,
            (turned, position), rfl, ⟨turned, ⟨mem_turns_iff.mpr mayTurn, rfl⟩, ?_⟩, _, rfl,
            uses_eq_false_iff.mpr free, ⟨entity, spelled⟩, ⟨lies, allowed⟩, by rw [phase]; rfl⟩
          rw [Cell.beyond_eq left, if_pos shows.1]

/-- The forks of a draft on the grid are listed by what they choose. -/
theorem exists_forks_listedBy (config : Config)
    (inside : board.contains draft.last.position = true) :
    ∃ forks, draft.forks board config = .ok forks ∧
      ListedBy forks (draft.Chooses board config) := by
  obtain ⟨forks, built, spec⟩ := forks_spec config inside
  refine ⟨forks, built, ?_⟩
  obtain ⟨next, led, stepped⟩ := Grid.step_of_contains inside draft.heading
  unfold Draft.forks at built
  simp only [stepped, Bind.bind, Except.bind, Pure.pure, Except.pure] at built
  cases onGrid : board.contains next with
  | false =>
    -- The grid ends here, and with it the draft.
    rw [onGrid] at built
    cases built
    exact .nil fun _ fork chooses => List.not_mem_nil ((spec fork).mpr chooses.grows)
  | true =>
    rw [onGrid, if_pos rfl] at built
    dsimp only at built
    split at built
    · cases built
      refine listedBy_layers (fun tile fork made => ?_) spec
      have read := tile_of_afterSubject made
      -- What follows a subject is one word, read straight ahead.
      unfold afterSubject at made
      split at made <;> split at made <;> cases made <;> exact ⟨rfl, read, rfl⟩
    · cases built
      exact listedBy_continuations spec
    · cases built
      exact listedBy_continuations spec
    · rename_i relation phase
      exact listedBy_afterPredicate phase led onGrid built spec

end Draft

end WordTiles
