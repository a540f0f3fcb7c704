import WordTiles.Flags.Basic
import WordTiles.Text.Blank
import WordTiles.Text.Hex

/-! The written form of a flag set: names in bit order, joined by bars, then the unnamed bits. -/

namespace WordTiles.Flags

variable {kind : FlagKind}

/-- The names of the flags that are set, in bit order. -/
def setNames (flags : Flags kind) : List String :=
  -- A name is looked up by its bit, which is its place in the list.
  (kind.names.zipIdx.filter fun (_, bit) => flags.has bit).map Prod.fst

/-- The parts of the written form; all bits without a name share one last part. -/
def parts (flags : Flags kind) : List (List Char) :=
  -- The unnamed bits are written as a number, which keeps them all in one part.
  let rest := flags \ named
  flags.setNames.map String.toList ++
    if rest.isEmpty then [] else ['0' :: 'x' :: Text.hexDigits rest.bits.toNat]

/-- The written form of a flag set. -/
def text (flags : Flags kind) : String :=
  -- Parts are joined by a bar with a blank on each side.
  .ofList (List.intercalate [' ', '|', ' '] flags.parts)

/-- The flags that one part states: a name as it is written, or bits in base sixteen. -/
def ofPart? : List Char → Option (Flags kind)
  | '0' :: 'x' :: digits => do
    let value ← Text.readHex digits
    -- A number that does not fit in the word is no set.
    let bits := BitVec.ofNat kind.width value
    if bits.toNat = value then some ⟨bits⟩ else none
  | part => do
    -- Names are read as they are written, in capitals.
    let bit ← kind.names.findIdx? fun name => name.toList == part
    some (single bit)

/-- Reads a written flag set. Blanks around the text and around each part do not count, a blank text
is the empty set, and no part may be blank. -/
def ofText? (text : String) : Option (Flags kind) :=
  -- Between bars even a blank part is refused, although a blank text is not.
  let body := Text.trim text.toList
  if body.isEmpty then some ∅
  else (Text.splitAround '|' body).foldlM (fun flags part => do
    return flags ∪ (← ofPart? (Text.trim part))) ∅

end WordTiles.Flags
