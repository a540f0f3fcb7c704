/-! JSON values, and the two ways in which they hold the fields of a record. -/

namespace WordTiles

/-- A JSON value. -/
inductive Json where
  | null
  | bool (value : Bool)
  /-- A number written without a fraction and without an exponent. -/
  | int (value : Int)
  /-- Any other number: its digits as a whole number, and the places after the point. -/
  | decimal (digits : Int) (places : Nat)
  | text (value : String)
  | list (items : List Json)
  /-- Named values; no name occurs twice. -/
  | object (fields : List (String × Json))
  deriving Inhabited

namespace Json

/-- The value under a name. -/
def field? (fields : List (String × Json)) (name : String) : Option Json :=
  -- An object has no name twice, so that the first hit is the only one.
  (fields.find? (·.1 == name)).map Prod.snd

/-- The fields of a record, in the order of their names. An object may lack some, and may have
others besides; a list has exactly these, in this order. -/
def fields? (names : List String) : Json → Option (List (Option Json))
  -- A list holds the fields without their names, and so none may be left out.
  | object fields => some (names.map (field? fields))
  | list items => if items.length = names.length then some (items.map some) else none
  | _ => none

end Json

end WordTiles
