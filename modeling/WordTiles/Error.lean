import WordTiles.Hex.Cell
import WordTiles.Ident

/-! Everything that can go wrong, and the text that reports it. -/

namespace WordTiles

/-- The cause of a failure. The first four refuse a request and leave everything as it was; the rest
are faults, after which no further answer is to be trusted. -/
inductive Error where
  /-- A placement or a move names a cell outside the grid. -/
  | outOfBounds (cell : Cell) (width height : Int32)
  /-- A request names an entity that is not live. -/
  | entityNotFound (id : EntityId)
  /-- A configuration allows no settling round. -/
  | zeroRoundCap
  /-- A rule of destruction in a configuration has no destroyer. -/
  | emptyDestroyer (index : Nat)
  /-- A grid has no cell. -/
  | emptyGrid
  /-- A sum of coordinates, steps or identifiers leaves its range. -/
  | sumOverflow
  /-- A difference of coordinates leaves its range. -/
  | differenceOverflow
  /-- The clock passes its last second. -/
  | clockOverflow
  /-- An entity is created outside the grid without a check. -/
  | createdOutside (cell : Cell)
  /-- A phrase without a word has no first word. -/
  | emptyPhrase
  /-- A path is too short to have a direction. -/
  | shortPath (phrase : PhraseId) (length : Nat)
  /-- Two consecutive words of a path are not neighbours. -/
  | brokenPath (phrase : PhraseId) (source target : Cell)
  /-- A phrase is too short for a sentence. -/
  | shortPhrase (text : String) (length minimum : Nat)
  /-- Two consecutive words of a phrase are not neighbours. -/
  | brokenPhrase (text : String)
  /-- A mark belongs to no phrase. -/
  | danglingMark
  deriving DecidableEq

namespace Error

/-- The failure refuses a request, and whoever made it can carry on. -/
def isRefusal : Error → Bool
  -- Refusals are found before anything is changed.
  | outOfBounds .. | entityNotFound _ | zeroRoundCap | emptyDestroyer _ => true
  | _ => false

/-- The text that reports a failure. Of several dangling marks none is named, hence no text. -/
def message? : Error → Option String
  -- Faults of arithmetic and of indexing are worded as the checks themselves word them.
  | outOfBounds cell width height =>
    some s!"cell {cell.text} is outside the {width.toInt}x{height.toInt} grid"
  | entityNotFound id => some s!"entity not found: {id.text}"
  | zeroRoundCap => some "max_settle_iterations must be at least 1"
  | emptyDestroyer index => some s!"collateral rule {index} has no destroyer property"
  | emptyGrid => some "Grid must be at least 1x1"
  | sumOverflow => some "attempt to add with overflow"
  | differenceOverflow => some "attempt to subtract with overflow"
  | clockOverflow => some "overflow when adding durations"
  | createdOutside cell => some s!"spawn outside grid at {cell.text}"
  | emptyPhrase => some "index out of bounds: the len is 0 but the index is 0"
  | shortPath phrase length =>
    some s!"phrase {phrase.text} has {length} words, a path needs at least 2"
  | brokenPath phrase source target =>
    some s!"phrase {phrase.text} steps from {source.text} to non-adjacent {target.text}"
  | shortPhrase text length minimum =>
    some s!"phrase '{text}' has {length} words, minimum is {minimum}"
  | brokenPhrase text => some s!"phrase '{text}' is not contiguous"
  | danglingMark => none

end Error

/-- Two steps succeed when the first does and the second does with its result. -/
theorem bind_eq_ok_iff {α β : Type} {first : Except Error α} {next : α → Except Error β}
    {result : β} :
    (first >>= next) = .ok result ↔ ∃ value, first = .ok value ∧ next value = .ok result := by
  -- A step that fails ends the run, so that only a first value can go on.
  cases first with
  | error error => simp [Bind.bind, Except.bind]
  | ok value => simp [Bind.bind, Except.bind]

end WordTiles
