import WordTiles.Json.Value

/-! Codecs: how values are written as JSON and read back. -/

namespace WordTiles

/-- A way to write the values of a type as JSON, and to read what is written so. -/
class Codec (α : Type) where
  write : α → Json
  read? : Json → Option α

namespace Codec

/-- Reads a field that must be there. -/
def required {α : Type} [Codec α] (field : Option Json) : Option α :=
  -- An absent field is a failure here.
  field.bind read?

instance : Codec Bool where
  write := .bool
  read?
    | .bool value => some value
    | _ => none

/-- Reads a whole number below a bound. -/
def readBelow (bound : Nat) : Json → Option Nat
  -- Negative numbers and numbers beyond the bound are refused, not wrapped.
  | .int value => if 0 ≤ value ∧ value < bound then some value.toNat else none
  | _ => none

instance : Codec UInt32 where
  write value := .int value.toNat
  read? json := (readBelow UInt32.size json).map .ofNat

instance : Codec UInt64 where
  write value := .int value.toNat
  read? json := (readBelow UInt64.size json).map .ofNat

/-- A missing value is written as null. -/
instance {α : Type} [Codec α] : Codec (Option α) where
  write
    | none => .null
    | some value => write value
  read?
    -- Null stands for the missing value, and so no value may be written as null.
    | .null => some none
    | json => (read? json).map some

/-- Reads a field that counts as absent where it is missing. -/
def optional {α : Type} [Codec α] (field : Option Json) : Option (Option α) :=
  -- An absent field is read as an absent value, and so is a null.
  match field with
  | none => some none
  | some json => read? json

instance {α : Type} [Codec α] : Codec (List α) where
  -- One item that cannot be read spoils the list.
  write values := .list (values.map write)
  read?
    | .list items => items.mapM read?
    | _ => none

/-- The value of a given list that has a name. -/
def named? {α : Type} (all : List α) (name : α → String) (text : String) : Option α :=
  -- Names are distinct, so that the first hit is the only one.
  all.find? (name · == text)

/-- Values with names are written as these; an object with the name and nothing under it reads
the same. -/
@[reducible] def byName {α : Type} (all : List α) (name : α → String) : Codec α where
  write value := .text (name value)
  read?
    | .text text => named? all name text
    -- A variant without contents may be written as an object as well.
    | .object [(text, .null)] => named? all name text
    | _ => none

end Codec

end WordTiles
