/-! Blank characters, and the text that remains when the blanks around it are removed. -/

namespace WordTiles.Text

/-- A character is blank if it has the Unicode property `White_Space`. -/
def isBlank (c : Char) : Bool :=
  -- The table is that of Unicode: the controls, the spaces by width, and the two separators.
  let code := c.toNat
  (0x09 ≤ code && code ≤ 0x0d) || code == 0x20 || code == 0x85 || code == 0xa0 || code == 0x1680 ||
    (0x2000 ≤ code && code ≤ 0x200a) || code == 0x2028 || code == 0x2029 || code == 0x202f ||
    code == 0x205f || code == 0x3000

/-- The text between the leading and the trailing blanks. -/
def trim (text : List Char) : List Char :=
  -- Trailing blanks are leading ones of the reversed text.
  ((text.dropWhile isBlank).reverse.dropWhile isBlank).reverse

/-- The pieces of a text between the occurrences of a separator, of which there is one less. -/
def splitAround (separator : Char) : List Char → List (List Char)
  -- Nothing to split is one empty piece, so that a list of pieces is never empty.
  | [] => [[]]
  | c :: rest =>
    -- A separator starts a piece; any other character joins the one that is being read.
    if c = separator then [] :: splitAround separator rest
    else (splitAround separator rest).modifyHead (c :: ·)

end WordTiles.Text
