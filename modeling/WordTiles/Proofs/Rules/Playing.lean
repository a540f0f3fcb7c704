import WordTiles.Proofs.Rules.Room

/-! Games: an engine and its world under the requests of a host. No fault ends a game, unless a
clock passes its last second or the identifiers are used up. -/

namespace WordTiles

/-- An engine and the world that it runs on. -/
structure Game where
  engine : Engine
  world : World

/-- What a host can ask of a game. -/
inductive Request where
  /-- Creates an entity on the grid. -/
  | place (spawn : SpawnRequest)
  /-- Moves an entity to a cell of the grid. -/
  | move (id : EntityId) (target : Cell)
  /-- Removes a live entity. -/
  | remove (id : EntityId)
  /-- Tells the engine of a change. -/
  | signal
  /-- Searches the words of the world, with settings of the host, and checks what is found. -/
  | search (config : Config)
  /-- Checks what the engine found in its latest reading. -/
  | check
  /-- Settles the world. -/
  | tick (elapsed : Duration)

/-- The time that passes with a request, in nanoseconds. -/
def Request.nanoseconds : Request → Nat
  -- Time passes in ticks alone.
  | tick elapsed => elapsed.nanoseconds
  | _ => 0

namespace Game

/-- A game on an empty grid, with an engine that has not read anything. -/
def start (width height : Int32) (config : Config) : Except Error Game := do
  -- The settings are checked before the grid is.
  return { engine := ← Engine.ofConfig config, world := ← World.empty width height }

/-- Does what is asked for. -/
def serve (game : Game) : Request → Except Error Game
  -- A request that fails returns no game, so that nothing is half done.
  | .place spawn => do
    let (_, world) ← game.world.place spawn
    return { game with world }
  | .move id target => do
    return { game with world := ← game.world.move id target }
  | .remove id => do
    let (_, world) ← game.world.remove id
    return { game with world }
  | .signal => return { game with engine := game.engine.signal }
  | .search config => do
    -- The findings are looked at and thrown away.
    (← game.world.search config).check
    return game
  | .check => do
    game.engine.reader.findings.check
    return game
  | .tick elapsed => do
    let (_, engine, world) ← game.engine.tick game.world elapsed
    return { engine, world }

/-- A request that is refused leaves the game as it is; a fault ends it. -/
def proceed (game : Game) (request : Request) : Except Error Game :=
  -- The kind of the error decides which of the two it is.
  match game.serve request with
  | .ok after => .ok after
  | .error error => if error.isRefusal then .ok game else .error error

/-- Serves one request after the other. -/
def play (game : Game) (requests : List Request) : Except Error Game :=
  -- The first fault ends the run.
  requests.foldlM proceed game

/-- The number of entities that a request creates, or would have to create. -/
def creates (game : Game) : Request → Nat
  -- A placement off the grid is refused, and needs no identifier.
  | .place spawn => if game.world.contains spawn.position then 1 else 0
  | .tick elapsed =>
    game.engine.settleCreates game.world elapsed (game.engine.config.maxRounds.toNat - 1)
  | _ => 0

/-- The number of entities that a run creates, or would have to create. -/
def createsIn (game : Game) : List Request → Nat
  -- Later requests are counted from the game that the earlier ones leave.
  | [] => 0
  | request :: rest =>
    game.creates request +
      match game.proceed request with
      | .ok after => after.createsIn rest
      | .error _ => 0

/-- What every game keeps: a host can bring about its world, both clocks show the time that has
passed, and the findings of its engine pass their check. -/
structure Sound (game : Game) (passed : Nat) : Prop where
  reachable : game.world.Reachable
  reading : game.engine.reader.clock.nanoseconds = passed
  applying : game.engine.applier.clock.nanoseconds = passed
  checked : game.engine.reader.findings.check = .ok ()

/-- A game can start on a grid that has a cell, with settings that the engine can run with. -/
theorem start_spec {width height : Int32} {config : Config} (wide : 0 < width) (high : 0 < height)
    (valid : config.check = .ok ()) :
    ∃ game, start width height config = .ok game ∧ game.Sound 0 ∧
      game.world.nextId.toNat = 0 := by
  -- Each of the two conditions is tested once.
  obtain ⟨world, built, none⟩ :
      ∃ world, World.empty width height = .ok world ∧ world.nextId.toNat = 0 := by
    unfold World.empty
    rw [dif_pos ⟨wide, high⟩]
    exact ⟨_, rfl, rfl⟩
  have made : Engine.ofConfig config = .ok ⟨config, valid, .initial, .initial⟩ := by
    unfold Engine.ofConfig
    split
    · rfl
    · rename_i error invalid
      rw [valid] at invalid
      cases invalid
  refine ⟨⟨⟨config, valid, .initial, .initial⟩, world⟩, ?_, ⟨.empty built, rfl, rfl, rfl⟩, none⟩
  rw [start, made, built]
  rfl

variable {game : Game} {passed : Nat}

/-- A request that is refused leaves the game as it is. -/
theorem proceed_of_refused {request : Request} {error : Error}
    (failed : game.serve request = .error error) (refused : error.isRefusal = true) :
    game.proceed request = .ok game := by
  -- Of the two ways to fail this is the one that goes on.
  rw [proceed, failed]
  exact if_pos refused

/-- A request that is served leads on. -/
theorem proceed_of_served {request : Request} {after : Game}
    (served : game.serve request = .ok after) : game.proceed request = .ok after := by
  -- There is no error to look at.
  rw [proceed, served]

/-- A sound game can settle while the clocks run and there are identifiers. -/
theorem Sound.tick (sound : game.Sound passed) {elapsed : Duration}
    (inRange : passed + elapsed.nanoseconds < UInt64.size * nanosecondsPerSecond)
    (room : game.world.nextId.toNat + game.creates (.tick elapsed) < UInt32.size) :
    ∃ after, game.serve (.tick elapsed) = .ok after ∧
      after.Sound (passed + elapsed.nanoseconds) ∧
        after.world.nextId.toNat = game.world.nextId.toNat + game.creates (.tick elapsed) := by
  -- The two clocks show the same time, and there is room on both for what passes now.
  have runs {clock : Duration} (same : clock.nanoseconds = passed) :
      ∃ sum, clock.add elapsed = .ok sum :=
    Duration.exists_add (by rw [same]; exact inRange)
  obtain ⟨record, engine, world, ran, leads⟩ :=
    Engine.settle_of_room sound.reachable (runs sound.reading) (runs sound.applying) room
  refine ⟨⟨engine, world⟩, ?_, ⟨leads.reachable, ?_, ?_, leads.checked sound.checked⟩, leads.nextId⟩
  · rw [serve, Engine.tick, ran]
    rfl
  · rw [Duration.add_eq_ok_iff.mp leads.reading, sound.reading]
  · rw [Duration.add_eq_ok_iff.mp leads.applying, sound.applying]

/-- A sound game goes on with every request, while the clocks run and there are identifiers. -/
theorem Sound.proceed (sound : game.Sound passed) {request : Request}
    (inRange : passed + request.nanoseconds < UInt64.size * nanosecondsPerSecond)
    (room : game.world.nextId.toNat + game.creates request < UInt32.size) :
    ∃ after, game.proceed request = .ok after ∧ after.Sound (passed + request.nanoseconds) ∧
      after.world.nextId.toNat = game.world.nextId.toNat + game.creates request := by
  -- An edit is refused, or leads to a world that a host can bring about; only a tick takes time.
  cases request with
  | place spawn =>
    cases inside : game.world.contains spawn.position with
    | true =>
      -- Inside the grid there is an identifier left for the new entity.
      have one : game.creates (.place spawn) = 1 := if_pos inside
      rw [one] at room ⊢
      obtain ⟨world, inserted, grown⟩ := World.insert_of_room room spawn
      have placed : game.world.place spawn = .ok (⟨game.world.nextId⟩, world) := by
        rw [World.place_eq, if_pos inside, inserted]
      refine ⟨{ game with world }, proceed_of_served ?_,
        ⟨sound.reachable.place placed, sound.reading, sound.applying, sound.checked⟩, grown⟩
      rw [serve, placed]
      rfl
    | false =>
      -- Beyond it the placement is refused, and nothing changes.
      have none : game.creates (.place spawn) = 0 := if_neg (by rw [inside]; exact nofun)
      rw [none]
      have failed := World.place_eq_error_iff.mpr (.inl ⟨inside, rfl⟩)
      exact ⟨game, proceed_of_refused (by rw [serve, failed]; rfl) rfl, sound, rfl⟩
  | move id target =>
    cases moved : game.world.move id target with
    | ok world =>
      refine ⟨{ game with world }, proceed_of_served (by rw [serve, moved]; rfl),
        ⟨sound.reachable.move moved, sound.reading, sound.applying, sound.checked⟩, ?_⟩
      obtain ⟨_, _, _, rfl⟩ := World.move_eq_ok moved
      rfl
    | error error =>
      -- A move fails for its cell or for its entity, and both are refusals.
      have refused : error.isRefusal = true := by
        rcases World.move_eq_error_iff.mp moved with ⟨_, rfl⟩ | ⟨_, _, rfl⟩
        · rfl
        · rfl
      exact ⟨game, proceed_of_refused (by rw [serve, moved]; rfl) refused, sound, rfl⟩
  | remove id =>
    cases removed : game.world.remove id with
    | ok taken =>
      -- Taking an entity away uses no identifier.
      obtain ⟨entity, world⟩ := taken
      refine ⟨{ game with world }, proceed_of_served (by rw [serve, removed]; rfl),
        ⟨sound.reachable.remove removed, sound.reading, sound.applying, sound.checked⟩, ?_⟩
      unfold World.remove at removed
      split at removed <;> cases removed
      exact congrArg UInt32.toNat (World.nextId_of_take? ‹_›)
    | error error =>
      obtain ⟨_, rfl⟩ := World.remove_eq_error_iff.mp removed
      exact ⟨game, proceed_of_refused (by rw [serve, removed]; rfl) rfl, sound, rfl⟩
  | signal =>
    exact ⟨_, rfl, ⟨sound.reachable, sound.reading, sound.applying, sound.checked⟩, rfl⟩
  | search config =>
    -- A search of a world that a host can bring about succeeds, and its marks belong to its
    -- phrases.
    obtain ⟨_, findings, _, _, searched, _, checked⟩ :=
      Board.search_spec sound.reachable.consistent.single_board config
    refine ⟨game, proceed_of_served ?_, sound, rfl⟩
    rw [serve, World.search, searched]
    simp only [Bind.bind, Except.bind, checked]
    rfl
  | check =>
    refine ⟨game, proceed_of_served ?_, sound, rfl⟩
    -- What the reader found has been checked when it was read.
    rw [serve, sound.checked]
    rfl
  | tick elapsed =>
    obtain ⟨after, served, ticked⟩ := sound.tick inRange room
    exact ⟨after, proceed_of_served served, ticked⟩

/-- So it goes on with a whole run. -/
theorem Sound.play {requests : List Request} (sound : game.Sound passed)
    (inRange : passed + (requests.map Request.nanoseconds).sum <
      UInt64.size * nanosecondsPerSecond)
    (room : game.world.nextId.toNat + game.createsIn requests < UInt32.size) :
    ∃ after, game.play requests = .ok after ∧
      after.Sound (passed + (requests.map Request.nanoseconds).sum) ∧
        after.world.nextId.toNat = game.world.nextId.toNat + game.createsIn requests := by
  -- By induction on the requests: what the first one leaves of time and identifiers is enough.
  induction requests generalizing game passed with
  | nil => exact ⟨game, rfl, sound, rfl⟩
  | cons request rest ih =>
    rw [List.map_cons, List.sum_cons] at inRange ⊢
    rw [createsIn] at room ⊢
    obtain ⟨middle, proceeded, sound, grown⟩ := sound.proceed
      (show passed + request.nanoseconds < _ by omega) (by omega)
    simp only [proceeded] at room ⊢
    obtain ⟨after, played, sound, last⟩ := ih sound (by omega) (by rw [grown]; omega)
    refine ⟨after, ?_, ?_, ?_⟩
    · rw [Game.play, List.foldlM_cons, proceeded]
      exact played
    · rwa [Nat.add_assoc] at sound
    · rw [last, grown, Nat.add_assoc]

/-- A game can start on every grid that has a cell, with all settings that the engine can run with,
and whatever it is then asked for, no fault ends it while the time that passes fits the clocks and
there are identifiers for all entities: no coordinate leaves its range, no path or phrase fails a
check, and nothing is created outside the grid. Nor does pruning ever look up an entity under which
nothing is filed. -/
theorem play_total {width height : Int32} {config : Config} (wide : 0 < width) (high : 0 < height)
    (valid : config.check = .ok ()) :
    (∃ game, start width height config = .ok game ∧ ∀ requests : List Request,
      (requests.map Request.nanoseconds).sum < UInt64.size * nanosecondsPerSecond →
        game.createsIn requests < UInt32.size →
          ∃ after, game.play requests = .ok after ∧
            after.world.nextId.toNat = game.createsIn requests) ∧
      (∀ paths : List Phrase, ∀ path ∈ paths, ∀ last ∈ path.entities.getLast?,
        last ∈ Prune.fileUnder (fun path => path.entities.getLast?.toList) paths) ∧
        ∀ field : List Prune.Candidate, ∀ candidate ∈ field,
          ∀ last ∈ candidate.phrase.entities.getLast?,
            last ∈ Prune.fileUnder (·.phrase.entities) field := by
  -- The run goes on from a sound game, and the files are looked at by themselves.
  refine ⟨?_, ?_, ?_⟩
  · obtain ⟨game, started, sound, none⟩ := start_spec wide high valid
    refine ⟨game, started, fun requests inRange room => ?_⟩
    rw [← Nat.zero_add (requests.map Request.nanoseconds).sum] at inRange
    rw [← Nat.zero_add (game.createsIn requests), ← none] at room
    obtain ⟨after, played, _, last⟩ := sound.play inRange room
    exact ⟨after, played, by omega⟩
  · intro paths path listed last ends
    exact Prune.mem_fileUnder_of_mem listed (Option.mem_toList.mpr ends)
  · intro field candidate listed last ends
    exact Prune.mem_fileUnder_of_mem listed (List.mem_of_getLast? ends)

/-- A rule that turns one entity into another, and requests of every kind. Those that name a cell
outside the grid or the identifier 70 are refused. -/
def rockTurns : List Request :=
  -- The rule is broken when its verb is removed, and the words are searched afterwards.
  [.place (.tile .rock ⟨0, 0⟩), .place (.tile .is ⟨1, 0⟩), .place (.tile .wall ⟨2, 0⟩),
    .place (.object .rock ⟨3, 1⟩), .place (.object .rock ⟨9, 1⟩), .tick .zero, .check,
    .move ⟨0⟩ ⟨0, 1⟩, .move ⟨0⟩ ⟨-1, 0⟩, .remove ⟨1⟩, .remove ⟨70⟩, .signal, .search .standard,
    .tick ⟨5, by decide⟩]

/-- The game creates six entities: those that are asked for on the grid, an indicator for the rule,
and what the rule makes. -/
theorem play_total_rockTurns : ∃ game after, start 4 2 .standard = .ok game ∧
    (rockTurns.map Request.nanoseconds).sum = 5 ∧ game.createsIn rockTurns = 6 ∧
      game.play rockTurns = .ok after ∧ after.world.nextId.toNat = 6 := by
  -- The identifiers that the run needs are counted by evaluation.
  have known : (do return (← start 4 2 .standard).createsIn rockTurns) = .ok 6 := by
    cbv
  have wide : (0 : Int32) < 4 := by decide
  have high : (0 : Int32) < 2 := by decide
  have valid : Config.standard.check = .ok () := rfl
  obtain ⟨⟨game, started, plays⟩, _⟩ := play_total wide high valid
  rw [started] at known
  have creates : game.createsIn rockTurns = 6 := Except.ok.inj known
  obtain ⟨after, played, last⟩ := plays rockTurns (by decide) (by rw [creates]; decide)
  exact ⟨game, after, started, rfl, creates, played, last.trans creates⟩

end Game

end WordTiles
