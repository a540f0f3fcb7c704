import WordTiles.Phrase.Basic

/-! Marks: which phrases pass through a cell, and which way each of them reads there. -/

namespace WordTiles

/-- The place of a cell within a path. -/
inductive PathRole where
  | start
  | middle
  | finish
  deriving DecidableEq

namespace PathRole

/-- Every place. -/
def all : List PathRole := [start, middle, finish]

/-- The name of a place. -/
def name : PathRole → String
  | start => "Start"
  | middle => "Middle"
  | finish => "End"

end PathRole

/-- One phrase that passes through a cell. -/
structure Mark where
  phrase : PhraseId
  /-- The direction of the step to the next word; at the last word, of the step that led there. -/
  direction : Direction
  role : PathRole
  deriving DecidableEq

/-- The marks of a grid. -/
structure MarkGrid where
  /-- Every mark with its cell, in the order in which they were inserted. -/
  entries : List (Cell × Mark)
  /-- No cell has a mark twice. -/
  nodup : entries.Nodup
  deriving DecidableEq

namespace MarkGrid

/-- The grid without a mark. -/
def empty : MarkGrid := ⟨[], .nil⟩

/-- The marks of a cell, in the order in which they were inserted. -/
def marksAt (grid : MarkGrid) (cell : Cell) : List Mark :=
  -- Other cells are passed over, and the order of insertion stays.
  (grid.entries.filter (·.1 == cell)).map Prod.snd

/-- The marked cells, in the order in which they were first marked. -/
def cells (grid : MarkGrid) : List Cell :=
  (grid.entries.map Prod.fst).eraseDups

/-- The grid with a mark at a cell, which changes nothing if it is there already. -/
def insert (grid : MarkGrid) (entry : Cell × Mark) : MarkGrid :=
  -- That the mark is absent is what keeps the longer list free of repetitions.
  if present : entry ∈ grid.entries then grid
  else
    { entries := grid.entries ++ [entry]
      nodup := List.nodup_append.mpr
        ⟨grid.nodup, by simp, fun old member new added => by
          rw [List.mem_singleton.mp added]
          exact fun same => present (same ▸ member)⟩ }

/-- Insertion adds the one mark. -/
@[simp] theorem mem_insert {grid : MarkGrid} {entry other : Cell × Mark} :
    other ∈ (grid.insert entry).entries ↔ other ∈ grid.entries ∨ other = entry := by
  -- A mark that is there already adds nothing.
  unfold insert
  split
  · rename_i present
    exact ⟨.inl, fun member => member.elim id fun same => same ▸ present⟩
  · simp

/-- The direction of the step between two consecutive words of a phrase. -/
def stepDirection (id : PhraseId) (source target : Cell) : Except Error Direction := do
  -- A path that jumps is a fault of whoever built it.
  match ← source.headingTo target with
  | some direction => return direction
  | none => throw (.brokenPath id source target)

/-- The marks that a path leaves, given the role of its first word. The last word takes the
direction of the step that reaches it. -/
def marksFrom (id : PhraseId) (role : PathRole) :
    List PlacedWord → Except Error (List (Cell × Mark))
  -- One step is left, and its direction serves both words.
  | [first, last] => do
    let direction ← stepDirection id first.position last.position
    return [(first.position, ⟨id, direction, role⟩), (last.position, ⟨id, direction, .finish⟩)]
  -- The words after the first are in the middle until the last.
  | first :: second :: rest => do
    let direction ← stepDirection id first.position second.position
    let later ← marksFrom id .middle (second :: rest)
    return (first.position, ⟨id, direction, role⟩) :: later
  | _ => .ok []

/-- The marks that a phrase leaves along its path. A single word has no direction. -/
def marksOf (id : PhraseId) (phrase : Phrase) : Except Error (List (Cell × Mark)) :=
  -- No search finds a path as short as this, so that it is a fault.
  if phrase.length < 2 then .error (.shortPath id phrase.length)
  else marksFrom id .start phrase.words

/-- The grid with the marks of a phrase under an identifier. -/
def insertPath (grid : MarkGrid) (id : PhraseId) (phrase : Phrase) : Except Error MarkGrid := do
  -- The marks are found before any is inserted, so that a fault leaves the grid as it was.
  return (← marksOf id phrase).foldl insert grid

/-- Fails if a mark belongs to none of a number of phrases. -/
def check (grid : MarkGrid) (phraseCount : Nat) : Except Error Unit :=
  -- Identifiers are places among the phrases, and so below their number.
  if grid.entries.all fun entry => entry.2.phrase.val.toNat < phraseCount then .ok ()
  else .error .danglingMark

end MarkGrid

end WordTiles
