import WordTiles.Findings
import WordTiles.Proofs.World.Shown
import WordTiles.World.Edit

/-! The words of a world: which changes leave them alone, and with them everything that is read from
the board. -/

namespace WordTiles

/-- A request for an entity that is not a word tile and an indicator at once. -/
def SpawnRequest.IsPlain (request : SpawnRequest) : Prop :=
  -- A plain object is neither, and counts as plain.
  request.word = none ∨ request.indicator = none

namespace World

/-- No entity is a word tile and an indicator at once. -/
def IsPlain (world : World) : Prop :=
  -- Nothing else keeps a host from writing a word on an indicator.
  ∀ entity ∈ world.entities, entity.word = none ∨ entity.indicator = none

/-- Worlds with the same grid and the same tiles have the same board. -/
theorem board_congr {world after : World} (grid : after.toGrid = world.toGrid)
    (tiles : ∀ cell, (after.stackAt cell).filterMap after.tile? =
      (world.stackAt cell).filterMap world.tile?) : after.board = world.board := by
  -- A board is its grid with its tiles.
  have same : after.board.tiles = world.board.tiles := by
    funext cell
    rw [board_tiles, board_tiles, tiles]
  change Board.mk after.toGrid after.board.tiles = Board.mk world.toGrid world.board.tiles
  rw [grid, same]

/-- Nobody is found under the identifier of the next entity. -/
theorem find?_next (world : World) : world.find? ⟨world.nextId⟩ = none := by
  -- Whoever were found would have an identifier below the next one.
  cases found : world.find? ⟨world.nextId⟩ with
  | none => rfl
  | some entity =>
    obtain ⟨live, known⟩ := find?_eq_some_iff.mp found
    exact absurd known (id_ne_next live)

/-- What the entities of a stack yield, one by one, is what the arrivals at the cell yield. -/
theorem filterMap_stackAt {α : Type} {world : World} {cell : Cell} {yield : EntityId → Option α} :
    (world.stackAt cell).filterMap yield =
      world.layers.filterMap fun entry => if entry.1 = cell then yield entry.2 else none := by
  -- The stack filters the arrivals first and looks them up afterwards.
  unfold stackAt
  rw [List.filterMap_map, List.filterMap_filter]
  refine List.filterMap_congr fun entry _ => ?_
  by_cases here : entry.1 = cell <;> simp [here]

/-- Creating an entity without a word leaves the board as it is. -/
theorem board_create {world after : World} {request : SpawnRequest} {id : EntityId}
    (wordless : request.word = none) (created : world.create request = .ok (id, after)) :
    after.board = world.board := by
  -- The new identifier shows nothing, neither before nor after.
  obtain ⟨_, inserted⟩ := create_eq_ok created
  obtain ⟨rfl, grid, entities, layers⟩ := insert_eq_ok inserted
  have same (id : EntityId) : after.tile? id = world.tile? id := by
    -- The new entity is found under its own identifier alone.
    have found : after.find? id =
        (world.find? id).or (if ⟨world.nextId⟩ = id then some (.ofSpawn id request) else none) := by
      unfold find?
      rw [entities, List.find?_append]
      by_cases next : ⟨world.nextId⟩ = id
      · subst next
        simp [Entity.ofSpawn]
      · simp [Entity.ofSpawn, next]
    unfold tile?
    rw [found]
    by_cases next : ⟨world.nextId⟩ = id
    · subst next
      simp [find?_next, Entity.ofSpawn, wordless]
    · simp [next]
  -- Before it came, nobody had its identifier.
  have hidden : world.tile? ⟨world.nextId⟩ = none := by
    simp [tile?, find?_next]
  refine board_congr grid fun cell => ?_
  rw [funext same, filterMap_stackAt, filterMap_stackAt, layers, List.filterMap_append]
  simp [hidden]

/-- Erasing an entity that shows no word hides no other one. -/
theorem tile?_erase {world : World} {id : EntityId} (hidden : world.tile? id = none)
    (other : EntityId) : (world.erase id).tile? other = world.tile? other := by
  -- The one who went showed nothing, and nobody else went.
  unfold erase
  split
  · rename_i entity after taken
    obtain ⟨_, _, entities, _⟩ := take?_eq_some taken
    unfold tile? find? at hidden ⊢
    rw [entities, List.find?_filter]
    by_cases gone : other = id
    · subst gone
      rw [hidden, List.find?_eq_none.mpr, Option.bind_none]
      intro entity _
      simp
    · refine congrArg (Option.bind · _) (congrArg (List.find? · _) (funext fun entity => ?_))
      by_cases found : entity.id = other <;> simp [found, gone]
  · rfl

/-- Erasing an entity that shows no word leaves the board as it is. -/
theorem board_erase {world : World} {id : EntityId} (hidden : world.tile? id = none) :
    (world.erase id).board = world.board := by
  -- The tiles are found as before, and the arrivals that went showed none.
  have same := funext (tile?_erase hidden)
  unfold erase at same ⊢
  split
  · rename_i entity after taken
    obtain ⟨_, grid, _, layers⟩ := take?_eq_some taken
    rw [taken] at same
    refine board_congr grid fun cell => ?_
    change after.tile? = world.tile? at same
    rw [same, filterMap_stackAt, filterMap_stackAt, layers, List.filterMap_filter]
    refine List.filterMap_congr fun entry _ => ?_
    by_cases left : entry = (entity.position, id)
    · simp [left, hidden]
    · simp [left]
  · rfl

/-- Whoever was found before the entities changed is found after it. -/
theorem find?_mapEntities {world : World} {change : Entity → Entity} (id : EntityId) :
    (world.mapEntities change).find? id =
      (world.find? id).map fun entity => { change entity with id := entity.id } := by
  -- Identifiers are kept, so that the search stops at the same entity.
  unfold find? mapEntities
  rw [List.find?_map]
  rfl

/-- Changing entities in all but their words leaves the board as it is. -/
theorem board_mapEntities {world : World} {change : Entity → Entity}
    (spelled : ∀ entity, (change entity).word = entity.word) :
    (world.mapEntities change).board = world.board := by
  -- Each identifier finds the entity that it found before, with the same word.
  have same (id : EntityId) : (world.mapEntities change).tile? id = world.tile? id := by
    unfold tile?
    rw [find?_mapEntities]
    cases world.find? id with
    | none => rfl
    | some entity => simp [spelled]
  refine board_congr rfl fun cell => ?_
  rw [funext same]
  rfl

/-- Erasing entities that show no word leaves the board as it is. -/
theorem board_eraseAll {world : World} {ids : List EntityId}
    (hidden : ∀ id ∈ ids, world.tile? id = none) : (world.eraseAll ids).board = world.board := by
  -- The first one takes no tile with it, so the others still show none.
  unfold eraseAll
  induction ids generalizing world with
  | nil => rfl
  | cons id rest ih =>
    have first := hidden id (by simp)
    rw [List.foldl_cons, ih, board_erase first]
    intro other member
    rw [tile?_erase first]
    exact hidden other (by simp [member])

/-- Creating entities without words leaves the board as it is. -/
theorem board_createAll {world after : World} {requests : List SpawnRequest} {ids : List EntityId}
    (wordless : ∀ request ∈ requests, request.word = none)
    (created : world.createAll requests = .ok (ids, after)) : after.board = world.board := by
  -- The board is compared with the first one after each creation.
  refine createAll_induction (motive := fun other => other.board = world.board) ?_ rfl created
  intro before after request id member same made
  exact (board_create (wordless request member) made).trans same

namespace IsPlain

/-- Erasing an entity keeps a world plain. -/
theorem erase {world : World} (plain : world.IsPlain) (id : EntityId) :
    (world.erase id).IsPlain := by
  -- Whoever is left was there before.
  unfold World.erase
  split
  · rename_i entity after taken
    obtain ⟨_, _, entities, _⟩ := take?_eq_some taken
    intro other live
    rw [entities] at live
    exact plain other (List.mem_filter.mp live).1
  · exact plain

/-- Erasing several entities keeps a world plain. -/
theorem eraseAll {world : World} (plain : world.IsPlain) (ids : List EntityId) :
    (world.eraseAll ids).IsPlain := by
  -- The entities are erased one after the other.
  unfold World.eraseAll
  induction ids generalizing world with
  | nil => exact plain
  | cons id rest ih => exact ih (plain.erase id)

/-- Creating plain entities keeps a world plain. -/
theorem createAll {world after : World} (plain : world.IsPlain) {requests : List SpawnRequest}
    {ids : List EntityId} (plains : ∀ request ∈ requests, request.IsPlain)
    (created : world.createAll requests = .ok (ids, after)) : after.IsPlain := by
  -- Each new entity is as plain as its request.
  refine createAll_induction (motive := IsPlain) ?_ plain created
  intro before after request id member plain made
  obtain ⟨_, _, entities, _⟩ := insert_eq_ok (create_eq_ok made).2
  intro entity live
  rw [entities, List.mem_append, List.mem_singleton] at live
  rcases live with live | rfl
  · exact plain entity live
  · exact plains request member

/-- Changing neither words nor indicators keeps a world plain. -/
theorem mapEntities {world : World} (plain : world.IsPlain) {change : Entity → Entity}
    (spelled : ∀ entity, (change entity).word = entity.word)
    (shown : ∀ entity, (change entity).indicator = entity.indicator) :
    (world.mapEntities change).IsPlain := by
  -- Each entity keeps both its word and its indicator.
  intro entity live
  obtain ⟨before, known, rfl⟩ := List.mem_map.mp live
  change (change before).word = none ∨ (change before).indicator = none
  rw [spelled, shown]
  exact plain before known

/-- A world without an entity is plain. -/
theorem empty {width height : Int32} {world : World}
    (built : World.empty width height = .ok world) : world.IsPlain := by
  -- There is nobody to look at.
  unfold World.empty at built
  split at built <;> cases built
  intro entity live
  cases live

/-- A row of word tiles is plain. -/
theorem row {words : List Word} {world : World} (built : World.row words = .ok world) :
    world.IsPlain := by
  -- Every request of the row is for a tile, which shows no transform.
  obtain ⟨bare, empty, built⟩ := bind_eq_ok_iff.mp built
  obtain ⟨⟨ids, after⟩, created, built⟩ := bind_eq_ok_iff.mp built
  cases built
  refine (IsPlain.empty empty).createAll (fun request listed => ?_) created
  obtain ⟨_, _, rfl⟩ := List.mem_map.mp listed
  exact .inr rfl

end IsPlain

end World

end WordTiles
