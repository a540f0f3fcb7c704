/-! Natural numbers written in base sixteen. -/

namespace WordTiles.Text

/-- The value of a digit in base sixteen, in either case. -/
def hexValue (c : Char) : Option Nat :=
  -- Each run of digits is consecutive in the table of characters.
  if '0' ≤ c ∧ c ≤ '9' then some (c.toNat - '0'.toNat)
  else if 'a' ≤ c ∧ c ≤ 'f' then some (c.toNat - 'a'.toNat + 10)
  else if 'A' ≤ c ∧ c ≤ 'F' then some (c.toNat - 'A'.toNat + 10)
  else none

/-- The number that a run of digits writes, most significant digit first. -/
def readHexDigits (digits : List Char) : Option Nat :=
  -- Another digit multiplies by sixteen what stands before it.
  digits.foldlM (fun value c => (hexValue c).map (16 * value + ·)) 0

/-- Reads at least one digit, after a plus sign or without. -/
def readHex : List Char → Option Nat
  -- A sign alone is no number, and neither is nothing.
  | [] | ['+'] => none
  | '+' :: digits | digits => readHexDigits digits

/-- The shortest run of lower-case digits that writes a number. -/
def hexDigits (value : Nat) : List Char :=
  Nat.toDigits 16 value

end WordTiles.Text
