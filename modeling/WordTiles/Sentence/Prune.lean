import Std.Data.HashMap
import WordTiles.Phrase.Basic

/-! Pruning: of the sentences on a board, those that are a part of another or read another backwards
are no sentences of their own. -/

namespace WordTiles.Prune

/-- Files an item, with its place in a list, under an entity. The items are filed in the order of
the list, so one that is there already is the one that was filed last. -/
def file {α : Type} (item : α × Nat) (files : Std.HashMap EntityId (List (α × Nat)))
    (entity : EntityId) : Std.HashMap EntityId (List (α × Nat)) :=
  -- Only the latest place can repeat, since items are filed one after the other.
  let filed := files.getD entity []
  if filed.head?.map Prod.snd = some item.2 then files else files.insert entity (item :: filed)

/-- The items of a list with their places, filed under each of their entities. -/
def fileUnder {α : Type} (keys : α → List EntityId) (items : List α) :
    Std.HashMap EntityId (List (α × Nat)) :=
  -- The latest item of a file stands at its front.
  items.zipIdx.foldl (fun files item => (keys item.1).foldl (file item) files) ∅

/-- One path of entities is the end of another that is longer. -/
def isTailOf (short long : List EntityId) : Bool :=
  -- The length is compared first, so that no path is the tail of itself.
  short.length < long.length && short.isSuffixOf long

/-- A block of entities occurs in a path without a gap. -/
def occursIn (block : List EntityId) : List EntityId → Bool
  | [] => block.isEmpty
  -- The block begins here, or further on.
  | entity :: rest => block.isPrefixOf (entity :: rest) || occursIn block rest

/-- Keeps the paths that are not the end of a longer one. A longer path with the same end shares the
last entity, so only the paths that are filed under it are compared. -/
def dropTails (paths : List Phrase) : List Phrase :=
  let files := fileUnder (fun path => path.entities.getLast?.toList) paths
  paths.filter fun path =>
    -- A path without an entity is no sentence.
    match path.entities.getLast? with
    | none => false
    | some last => !(files.getD last []).any fun other => isTailOf path.entities other.1.entities

/-- A path among others, as they compete for the reading of their words. -/
structure Candidate where
  phrase : Phrase
  /-- The first step goes in a forward direction. -/
  forward : Bool
  /-- The place of the path in the order of discovery. -/
  place : Nat

namespace Candidate

/-- One candidate loses to another if it reads the other's words backwards, and is the shorter of
the two, or else the only one that does not start forward, or else the later one. -/
def losesTo (candidate other : Candidate) : Bool :=
  -- The comparison is of entities, so that equal spellings elsewhere do not matter.
  let ours := candidate.phrase.entities
  let theirs := other.phrase.entities
  -- Of two readings of the same words exactly one loses.
  occursIn ours.reverse theirs &&
    (ours.length < theirs.length || (other.forward && !candidate.forward) ||
      (other.forward == candidate.forward && other.place < candidate.place))

end Candidate

/-- The candidates of a list of paths. -/
def candidates (paths : List Phrase) : Except Error (List Candidate) := do
  -- The direction of the first step decides which reading is the forward one.
  let headings ← paths.mapM Phrase.heading
  return (paths.zip headings).zipIdx.map fun ((phrase, heading), place) =>
    ⟨phrase, heading.any Direction.readsForward, place⟩

/-- Keeps the paths that lose to no other. A path that contains the reversal of another contains its
last entity, so only the paths that are filed under it are compared. -/
def dropReversals (paths : List Phrase) : Except Error (List Phrase) := do
  let candidates ← candidates paths
  -- Every entity of a path is a key, since the last one of another may lie anywhere in it.
  let files := fileUnder (·.phrase.entities) candidates
  let kept := candidates.filter fun candidate =>
    match candidate.phrase.entities.getLast? with
    | none => false
    | some last => !(files.getD last []).any fun other => candidate.losesTo other.1
  return kept.map (·.phrase)

end WordTiles.Prune
