import WordTiles.Config
import WordTiles.Sentence.Board

/-! Drafts: sentences in the making, and the ways in which the words on a board continue them. -/

namespace WordTiles

/-- How far a draft has come, named for the last word that it has read. -/
inductive Phase where
  /-- After a subject, a relation or a conjunction follows. -/
  | subject
  /-- After a conjunction of subjects, another subject follows. -/
  | conjunction
  /-- After the relation, a predicate follows. -/
  | relation (relation : Relation)
  /-- After a predicate the sentence is complete, and a conjunction with another predicate may
  follow. -/
  | predicate (relation : Relation)
  deriving DecidableEq

/-- A sentence in the making. -/
structure Draft where
  /-- The word read last. -/
  last : PlacedWord
  /-- The words before it, latest first. -/
  earlier : List PlacedWord
  /-- The direction in which the draft goes on. -/
  heading : Direction
  phase : Phase
  deriving DecidableEq

namespace Draft

/-- Every word of the draft, latest first. -/
def trail (draft : Draft) : List PlacedWord :=
  -- The latest word comes first, as it is the one that the draft goes on from.
  draft.last :: draft.earlier

/-- The words of the draft as a phrase. -/
def phrase (draft : Draft) : Phrase :=
  -- Reading order is the reverse of the trail.
  ⟨draft.trail.reverse⟩

/-- The draft has read a word in this part at this cell. -/
def uses (draft : Draft) (cell : Cell) (part : SentencePart) : Bool :=
  -- Another part of the same cell is still free.
  draft.trail.any fun word => word.position == cell && word.part == part

/-- A draft that has read its first subject. -/
def start (cell : Cell) (tile : Tile) (heading : Direction) : Draft :=
  -- A lone noun is a subject until a relation follows.
  ⟨⟨tile.word, cell, tile.entity, .subject⟩, [], heading, .subject⟩

/-- The draft after one more word. -/
def push (draft : Draft) (cell : Cell) (tile : Tile) (part : SentencePart) (phase : Phase) :
    Draft :=
  -- The heading stays; only a conjunction of predicates can turn it.
  ⟨⟨tile.word, cell, tile.entity, part⟩, draft.trail, draft.heading, phase⟩

/-- How a tile after a subject continues the draft: as a relation that allows every subject so far,
or as a conjunction of subjects. -/
def afterSubject (config : Config) (draft : Draft) (cell : Cell) (tile : Tile) : Option Draft :=
  match tile.word.relation? with
  -- The relation comes once all subjects are known, and so it can test every one of them.
  | some relation =>
    if !draft.uses cell .relation && draft.phrase.subjects.all relation.allowsSubject then
      some (draft.push cell tile .relation (.relation relation))
    else none
  -- Whoever may not join subjects has no use for a conjunction here.
  | none =>
    if tile.word.isConjunction && config.joinsSubjects && !draft.uses cell .conjunction then
      some (draft.push cell tile .conjunction .conjunction)
    else none

/-- The continuations of a draft by the words of one cell that pass a test, unless the draft has
been there in the same part. -/
def continuations (board : Board) (draft : Draft) (cell : Cell) (part : SentencePart)
    (phase : Phase) (test : Word → Bool) : List Draft :=
  -- The place is tested once for all the words that lie on the cell.
  if draft.uses cell part then []
  else ((board.tiles cell).filter fun tile => test tile.word).map (draft.push cell · part phase)

/-- The directions in which a draft can leave a conjunction of predicates: straight on, then, if
bends are allowed, every other direction but back. -/
def turns (config : Config) (heading : Direction) : List Direction :=
  -- Straight on comes first, so that bends are found later than the way ahead.
  heading ::
    if config.mayBend then
      Direction.all.filter fun direction => direction != heading && direction != heading.opposite
    else []

/-- The cells of the grid to which the directions lead from a cell. -/
def landings (grid : Grid) (cell : Cell) : List Direction → Except Error (List (Direction × Cell))
  | [] => .ok []
  -- A step off the grid is no landing, and no fault.
  | direction :: rest => do
    let landing ← grid.step cell direction
    let later ← landings grid cell rest
    return match landing with
      | some next => (direction, next) :: later
      | none => later

/-- The continuations of a complete draft by a conjunction at a cell and a predicate one step on. -/
def afterPredicate (board : Board) (config : Config) (draft : Draft) (relation : Relation)
    (joint : Cell) : Except Error (List Draft) :=
  -- The conjunction and the predicate are read together, since a sentence cannot end between them.
  if draft.uses joint .conjunction then .ok []
  else do
    let landings ← landings board.toGrid joint (turns config draft.heading)
    return ((board.tiles joint).filter (·.word.isConjunction)).flatMap fun tile =>
      landings.flatMap fun (direction, cell) =>
        -- A conjunction takes no place of a predicate, so that the draft alone is tested.
        if draft.uses cell .predicate then []
        else
          let joined := draft.push joint tile .conjunction draft.phase
          let last := (board.tiles cell).filter fun tile => relation.allowsPredicate tile.word
          last.map fun tile =>
            { joined.push cell tile .predicate draft.phase with heading := direction }

/-- The continuations of a draft, in the order in which they are followed. A draft ends at the edge
of the grid, and no draft uses a cell twice in the same part. -/
def forks (board : Board) (config : Config) (draft : Draft) : Except Error (List Draft) := do
  match ← board.step draft.last.position draft.heading with
  -- Beyond the edge there is nothing to read.
  | none => return []
  | some next =>
    -- Every stage but the last reads a single word, straight ahead.
    match draft.phase with
    | .subject => return (board.tiles next).filterMap (draft.afterSubject config next)
    | .conjunction => return draft.continuations board next .subject .subject Word.isNoun
    | .relation relation =>
      return draft.continuations board next .predicate (.predicate relation)
        relation.allowsPredicate
    | .predicate relation => draft.afterPredicate board config relation next

/-- The draft has read a whole sentence. -/
def isComplete (draft : Draft) : Bool :=
  -- A sentence is whole as soon as it has a predicate.
  match draft.phase with
  | .predicate _ => true
  | _ => false

end Draft

end WordTiles
