import WordTiles.Hex.Cell
import WordTiles.Ident
import WordTiles.Word

/-! Entities: the tiles, objects and indicators that stand on the cells of a world. -/

namespace WordTiles

/-- The overlay that shows one category turning into another. -/
structure Indicator where
  subject : Category
  target : Category
  deriving DecidableEq

/-- A live entity. -/
structure Entity where
  id : EntityId
  position : Cell
  /-- The category under which the rules grant to the entity. -/
  category : Category
  /-- The word on a word tile. -/
  word : Option Word
  /-- The transform that an indicator shows. -/
  indicator : Option Indicator
  /-- The granted properties. -/
  properties : Properties
  /-- The granted abilities. -/
  abilities : Abilities
  deriving DecidableEq

/-- A request for a new entity, which has no identifier yet. -/
structure SpawnRequest where
  position : Cell
  category : Category
  word : Option Word
  indicator : Option Indicator
  /-- The properties that the entity starts with. -/
  properties : Properties
  deriving DecidableEq

namespace SpawnRequest

/-- A plain object. -/
def object (category : Category) (position : Cell) : SpawnRequest :=
  ⟨position, category, none, none, ∅⟩

/-- A word tile. -/
def tile (word : Word) (position : Cell) : SpawnRequest :=
  ⟨position, .text, some word, none, ∅⟩

/-- An indicator. -/
def overlay (indicator : Indicator) (position : Cell) : SpawnRequest :=
  ⟨position, .indicator, none, some indicator, ∅⟩

end SpawnRequest

namespace Entity

/-- The entity that a request creates under an identifier; it starts without abilities. -/
def ofSpawn (id : EntityId) (spawn : SpawnRequest) : Entity :=
  -- Abilities are granted by rules alone, so that a request cannot ask for one.
  { id
    position := spawn.position
    category := spawn.category
    word := spawn.word
    indicator := spawn.indicator
    properties := spawn.properties
    abilities := ∅ }

/-- Rules apply to every entity but the indicators, which are decoration. -/
def isGoverned (entity : Entity) : Bool :=
  -- An indicator is known by what it shows, whatever its category.
  !entity.indicator.isSome

/-- The governed entities are those that show no transform. -/
theorem isGoverned_iff {entity : Entity} :
    entity.isGoverned = true ↔ entity.indicator = none := by
  -- The test asks whether a transform is there.
  simp [isGoverned]

/-- The entity carries a word. -/
def bearsWord (entity : Entity) : Bool := entity.word.isSome

end Entity

end WordTiles
