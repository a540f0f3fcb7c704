import Mathlib.Data.List.Nodup
import WordTiles.Findings
import WordTiles.Proofs.World.Reachable

/-! The words that show on a board and on a world. -/

namespace WordTiles

/-- The tile of a word lies where the word is placed, on a cell of the grid. -/
def Board.Shows (board : Board) (word : PlacedWord) : Prop :=
  -- Only the tile of the word itself is asked for, wherever in the stack it lies.
  board.contains word.position = true ∧ ⟨word.entity, word.word⟩ ∈ board.tiles word.position

/-- No tile lies on a cell twice, and no entity shows in two places or with two words. -/
structure Board.Single (board : Board) : Prop where
  nodup : ∀ cell, (board.tiles cell).Nodup
  position : ∀ {a b : PlacedWord}, board.Shows a → board.Shows b → a.entity = b.entity →
    a.position = b.position
  word : ∀ {a b : PlacedWord}, board.Shows a → board.Shows b → a.entity = b.entity →
    a.word = b.word

namespace World

/-- The live entity of a placed word stands in the stack of its own cell, which is the place of the
word and lies on the grid, and carries the word. -/
def Shows (world : World) (word : PlacedWord) : Prop :=
  -- The stack and the entity are asked separately, since a world holds them separately.
  world.contains word.position = true ∧ word.entity ∈ world.stackAt word.position ∧
    ∃ entity, world.find? word.entity = some entity ∧ entity.position = word.position ∧
      entity.word = some word.word

/-- The tile of a live entity, if it carries a word. -/
def tile? (world : World) (id : EntityId) : Option Tile :=
  -- An identifier that is not live shows nothing, and neither does a plain object.
  (world.find? id).bind fun entity => entity.word.map (Tile.mk entity.id)

/-- The tiles of a cell are those of its stack. -/
theorem board_tiles (world : World) (cell : Cell) :
    world.board.tiles cell = (world.stackAt cell).filterMap world.tile? := by
  -- Looking up the entities and reading their words are one pass over the stack.
  simp only [board, occupants, List.filterMap_filterMap]
  rfl

/-- The tile of an entity bears its identifier and its word. -/
theorem tile?_eq_some_iff {world : World} {id : EntityId} {tile : Tile} :
    world.tile? id = some tile ↔
      tile.entity = id ∧ ∃ entity, world.find? id = some entity ∧ entity.word = some tile.word := by
  -- The entity that is found under an identifier has it.
  unfold tile?
  constructor
  · intro made
    obtain ⟨entity, found, made⟩ := Option.bind_eq_some_iff.mp made
    obtain ⟨word, carried, rfl⟩ := Option.map_eq_some_iff.mp made
    exact ⟨(find?_eq_some_iff.mp found).2, entity, found, carried⟩
  · rintro ⟨rfl, entity, found, carried⟩
    obtain ⟨entityId, word⟩ := tile
    have known := (find?_eq_some_iff.mp found).2
    simp only at carried known
    simp [found, carried, known]

/-- An entity is listed in the stack of a cell once for every time that it arrived there. -/
theorem mem_stackAt {world : World} {cell : Cell} {id : EntityId} :
    id ∈ world.stackAt cell ↔ (cell, id) ∈ world.layers := by
  -- A stack holds the second components of the arrivals at its cell.
  simp [stackAt]

namespace Consistent

variable {world : World} (consistent : world.Consistent)

include consistent

/-- An entity stands in the stack of its own cell alone. -/
theorem mem_stackAt_iff {cell : Cell} {id : EntityId} :
    id ∈ world.stackAt cell ↔ ∃ entity ∈ world.entities, entity.id = id ∧ entity.position = cell :=
  -- In a consistent world the arrivals are those of the live entities at their own cells.
  mem_stackAt.trans consistent.mem_layers

/-- The occupants of a cell are the live entities on it. -/
theorem mem_occupants_iff {cell : Cell} {entity : Entity} :
    entity ∈ world.occupants cell ↔ entity ∈ world.entities ∧ entity.position = cell := by
  -- The stack lists the identifiers of those who stand there, and each finds its entity.
  simp only [occupants, List.mem_filterMap, consistent.mem_stackAt_iff, find?_eq_some_iff]
  constructor
  · rintro ⟨_, ⟨other, live, rfl, here⟩, known, same⟩
    cases eq_of_id known live same
    exact ⟨known, here⟩
  · rintro ⟨live, here⟩
    exact ⟨entity.id, ⟨entity, live, rfl, here⟩, live, rfl⟩

/-- No entity stands in a stack twice. -/
theorem nodup_stackAt (cell : Cell) : (world.stackAt cell).Nodup := by
  -- Two equal entries of one stack would be the same arrival.
  refine (consistent.nodup.filter _).map_on fun a left b right same => ?_
  simp only [List.mem_filter, beq_iff_eq] at left right
  exact Prod.ext (left.2.trans right.2.symm) same

/-- The board of a consistent world shows what its entities carry. -/
theorem board_shows_iff {word : PlacedWord} : world.board.Shows word ↔ world.Shows word := by
  -- The entity that bears a tile stands where its stack is.
  unfold Board.Shows Shows
  refine and_congr Iff.rfl ?_
  rw [board_tiles, List.mem_filterMap]
  constructor
  · rintro ⟨id, stacked, made⟩
    obtain ⟨same, entity, found, carried⟩ := tile?_eq_some_iff.mp made
    subst same
    obtain ⟨other, live, same, here⟩ := consistent.mem_stackAt_iff.mp stacked
    obtain ⟨known, named⟩ := find?_eq_some_iff.mp found
    cases eq_of_id known live (named.trans same.symm)
    exact ⟨stacked, entity, found, here, carried⟩
  · rintro ⟨stacked, entity, found, _, carried⟩
    exact ⟨word.entity, stacked, tile?_eq_some_iff.mpr ⟨rfl, entity, found, carried⟩⟩

/-- On the board of a consistent world every entity shows once. -/
theorem single_board : world.board.Single := by
  refine ⟨fun cell => ?_, fun left right same => ?_, fun left right same => ?_⟩
  · -- Every tile bears the identifier under which it was found.
    rw [board_tiles]
    refine (consistent.nodup_stackAt cell).filterMap fun a b tile one other => ?_
    exact (tile?_eq_some_iff.mp one).1.symm.trans (tile?_eq_some_iff.mp other).1
  · obtain ⟨_, _, one, found, here, _⟩ := consistent.board_shows_iff.mp left
    obtain ⟨_, _, other, again, there, _⟩ := consistent.board_shows_iff.mp right
    rw [same, again] at found
    cases found
    exact here.symm.trans there
  · obtain ⟨_, _, one, found, _, carried⟩ := consistent.board_shows_iff.mp left
    obtain ⟨_, _, other, again, _, borne⟩ := consistent.board_shows_iff.mp right
    rw [same, again] at found
    cases found
    exact Option.some.inj (carried.symm.trans borne)

end Consistent

end World

end WordTiles
