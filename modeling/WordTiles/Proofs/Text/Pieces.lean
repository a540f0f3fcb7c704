import WordTiles.Text.Blank
import WordTiles.Text.Hex

/-! Pieces of text: numbers are read back from their digits, and the parts of a text from the text
that joins them, as long as no part has a blank or a separator. -/

namespace WordTiles.Text

/-- Each of the sixteen digits has its own value. -/
theorem hexValue_digitChar {value : Nat} (small : value < 16) :
    hexValue value.digitChar = some value := by
  -- There are sixteen values to try.
  revert value
  decide

/-- A number is written with digits alone. -/
theorem exists_of_mem_hexDigits {value : Nat} {c : Char} (member : c ∈ hexDigits value) :
    ∃ digit < 16, c = digit.digitChar := by
  -- By induction on the number, whose last digit is split off.
  induction value using Nat.strongRecOn with
  | _ value ih =>
    unfold hexDigits at member ih
    rcases Nat.lt_or_ge value 16 with small | large
    · rw [Nat.toDigits_of_lt_base small, List.mem_singleton] at member
      exact ⟨value, small, member⟩
    · rw [Nat.toDigits_of_base_le (by decide) large, List.mem_append, List.mem_singleton] at member
      rcases member with earlier | last
      · exact ih (value / 16) (by omega) earlier
      · exact ⟨value % 16, Nat.mod_lt value (by decide), last⟩

/-- One more digit counts for sixteen times as much before it. -/
theorem readHexDigits_concat (digits : List Char) (c : Char) :
    readHexDigits (digits ++ [c]) =
      (readHexDigits digits).bind fun value => (hexValue c).map (16 * value + ·) := by
  -- Digits are read from the left, so that the last one is read last.
  unfold readHexDigits
  rw [List.foldlM_append]
  simp

/-- A number is read back from its digits. -/
theorem readHexDigits_hexDigits (value : Nat) : readHexDigits (hexDigits value) = some value := by
  induction value using Nat.strongRecOn with
  | _ value ih =>
    unfold hexDigits at ih ⊢
    rcases Nat.lt_or_ge value 16 with small | large
    · rw [Nat.toDigits_of_lt_base small]
      simp [readHexDigits, hexValue_digitChar small]
    · -- The digits before the last one write the sixteenth part.
      have last := hexValue_digitChar (Nat.mod_lt value (show 0 < 16 by decide))
      rw [Nat.toDigits_of_base_le (by decide) large, readHexDigits_concat,
        ih (value / 16) (by omega), last]
      simp only [Option.bind_some, Option.map_some, Option.some.injEq]
      omega

/-- The digits of a number are a number without a sign. -/
theorem readHex_hexDigits (value : Nat) : readHex (hexDigits value) = some value := by
  -- A number is not read with a sign, since its digits hold no plus.
  have read := readHexDigits_hexDigits value
  have filled : hexDigits value ≠ [] := Nat.toDigits_ne_nil
  have unsigned : '+' ∉ hexDigits value := by
    intro member
    obtain ⟨digit, small, same⟩ := exists_of_mem_hexDigits member
    revert digit
    decide
  unfold readHex
  split
  · contradiction
  · rename_i plus
    exact absurd (plus ▸ .head _) unsigned
  · rename_i plus
    exact absurd (plus ▸ .head _) unsigned
  · exact read

/-- A blank in front does not count. -/
theorem trim_cons_of_isBlank {c : Char} (blank : isBlank c = true) (text : List Char) :
    trim (c :: text) = trim text := by
  -- Blanks in front are dropped first.
  rw [trim, List.dropWhile_cons_of_pos blank, trim]

/-- A blank at the end does not count. -/
theorem trim_concat_of_isBlank {c : Char} (blank : isBlank c = true) (text : List Char) :
    trim (text ++ [c]) = trim text := by
  unfold trim
  rw [List.dropWhile_append]
  split
  · -- Nothing but blanks stands before it.
    rename_i none
    rw [List.isEmpty_iff] at none
    simp [none, blank]
  · rw [List.reverse_append, List.reverse_singleton, List.singleton_append,
      List.dropWhile_cons_of_pos blank]

/-- A text that neither begins nor ends with a blank is left as it is. -/
theorem trim_eq_self {text : List Char} (first : ∀ c ∈ text.head?, isBlank c = false)
    (last : ∀ c ∈ text.getLast?, isBlank c = false) : trim text = text := by
  -- Both passes drop nothing, the second one reading from the end.
  have unchanged {text : List Char} (first : ∀ c ∈ text.head?, isBlank c = false) :
      text.dropWhile isBlank = text := by
    cases text with
    | nil => rfl
    | cons c rest => exact List.dropWhile_cons_of_neg (by simp [first c rfl])
  rw [trim, unchanged first, unchanged (by rwa [List.head?_reverse]), List.reverse_reverse]

/-- A part that a separator can set off from other parts: it has some character, and neither a
blank nor a separator. -/
structure IsPiece (separator : Char) (part : List Char) : Prop where
  filled : part ≠ []
  solid : ∀ c ∈ part, isBlank c = false
  free : separator ∉ part

/-- Such a part has no blanks around it. -/
theorem IsPiece.trim_eq {separator : Char} {part : List Char} (piece : IsPiece separator part) :
    trim part = part :=
  -- It holds no blank, and so neither end is one.
  trim_eq_self (fun c first => piece.solid c (List.mem_of_head? first))
    fun c last => piece.solid c (List.mem_of_getLast? last)

/-- A text with a first part that is not empty is not empty. -/
theorem intercalate_ne_nil {joint part : List Char} {rest : List (List Char)}
    (filled : part ≠ []) : List.intercalate joint (part :: rest) ≠ [] := by
  -- The first character of the part is that of the whole.
  obtain ⟨first, others, rfl⟩ := List.exists_cons_of_ne_nil filled
  rw [List.intercalate_cons_cons_left]
  exact List.cons_ne_nil _ _

/-- Parts that are joined begin with a part and end with one, so no blanks are around them. -/
theorem trim_intercalate {separator : Char} {joint : List Char} {parts : List (List Char)}
    (pieces : ∀ part ∈ parts, IsPiece separator part) :
    trim (List.intercalate joint parts) = List.intercalate joint parts := by
  refine trim_eq_self ?_ ?_
  · cases parts with
    | nil => exact nofun
    | cons part rest =>
      -- The first character is that of the first part.
      have piece := pieces part (.head rest)
      obtain ⟨first, others, rfl⟩ := List.exists_cons_of_ne_nil piece.filled
      intro c starts
      rw [List.intercalate_cons_cons_left, List.head?_cons] at starts
      exact Option.some.inj starts ▸ piece.solid first (.head others)
  · -- By induction on the parts, of which the last one comes last.
    induction parts with
    | nil => exact nofun
    | cons part rest ih =>
      cases rest with
      | nil =>
        rw [List.intercalate_singleton]
        exact fun c last => (pieces part (.head [])).solid c (List.mem_of_getLast? last)
      | cons next rest =>
        have later := ih fun other member => pieces other (.tail _ member)
        have filled : List.intercalate joint (next :: rest) ≠ [] :=
          intercalate_ne_nil (pieces next (.tail _ (.head rest))).filled
        rw [List.intercalate_cons_cons, List.getLast?_append,
          List.getLast?_eq_some_getLast filled, Option.some_or,
          ← List.getLast?_eq_some_getLast filled]
        exact later

/-- A text without a separator is one piece. -/
theorem splitAround_of_not_mem {separator : Char} {text : List Char} (free : separator ∉ text) :
    splitAround separator text = [text] := by
  -- By induction on the text, no character of which separates.
  induction text with
  | nil => rfl
  | cons c rest ih =>
    obtain ⟨differs, free⟩ := List.ne_and_not_mem_of_not_mem_cons free
    rw [splitAround, if_neg (Ne.symm differs), ih free]
    rfl

/-- The first separator ends the first piece. -/
theorem splitAround_append {separator : Char} {text : List Char} (free : separator ∉ text)
    (rest : List Char) :
    splitAround separator (text ++ separator :: rest) = text :: splitAround separator rest := by
  -- By induction on the text in front of the separator.
  induction text with
  | nil => exact if_pos rfl
  | cons c text ih =>
    obtain ⟨differs, free⟩ := List.ne_and_not_mem_of_not_mem_cons free
    rw [List.cons_append, splitAround, if_neg (Ne.symm differs), ih free]
    rfl

/-- The parts of a text are found again where separators between blanks have joined them. -/
theorem map_trim_splitAround_intercalate {separator : Char} (visible : separator ≠ ' ')
    {parts : List (List Char)} (filled : parts ≠ [])
    (pieces : ∀ part ∈ parts, IsPiece separator part) :
    (splitAround separator (List.intercalate [' ', separator, ' '] parts)).map trim = parts := by
  -- By induction on the parts: the separator after the first one is the first in the text.
  induction parts with
  | nil => contradiction
  | cons part rest ih =>
    have piece := pieces part (.head rest)
    cases rest with
    | nil =>
      rw [List.intercalate_singleton, splitAround_of_not_mem piece.free, List.map_singleton,
        piece.trim_eq]
    | cons next rest =>
      have later := ih (List.cons_ne_nil next rest) fun other member =>
        pieces other (.tail _ member)
      -- The blank behind the first part does not separate.
      have free : separator ∉ part ++ [' '] := by simp [piece.free, visible]
      have joined : List.intercalate [' ', separator, ' '] (part :: next :: rest) =
          (part ++ [' ']) ++ separator ::
            ' ' :: List.intercalate [' ', separator, ' '] (next :: rest) := by
        rw [List.intercalate_cons_cons]
        simp
      rw [joined, splitAround_append free, splitAround, if_neg visible.symm, List.map_cons,
        trim_concat_of_isBlank rfl, piece.trim_eq]
      -- The blank after the separator stands in front of the second part.
      refine congrArg (part :: ·) (Eq.trans ?_ later)
      cases splitAround separator (List.intercalate [' ', separator, ' '] (next :: rest)) with
      | nil => rfl
      | cons first others => exact congrArg (· :: others.map trim) (trim_cons_of_isBlank rfl first)

end WordTiles.Text
