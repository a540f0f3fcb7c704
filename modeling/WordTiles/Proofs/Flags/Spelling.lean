import WordTiles.Flags.Text
import WordTiles.Proofs.Text.Pieces

/-! How flag sets are spelled: every set, with whatever bits, is read back from its text. -/

namespace WordTiles

/-- There is room for every flag that has a name. -/
theorem FlagKind.length_names_le (kind : FlagKind) : kind.names.length ≤ kind.width := by
  -- There are two kinds, whose names are counted.
  cases kind <;> decide

namespace Flags

open Text

variable {kind : FlagKind} {flags : Flags kind}

/-- The named flags are the lowest ones. -/
@[simp] theorem has_named {bit : Nat} :
    (named : Flags kind).has bit = decide (bit < kind.names.length) := by
  -- A flag with a name lies within the width, so that widening loses none.
  have room := kind.length_names_le
  rw [has, named, BitVec.getLsbD_setWidth, BitVec.getLsbD_allOnes, Bool.and_eq_right_iff_imp]
  intro low
  exact decide_eq_true (Nat.lt_of_lt_of_le (of_decide_eq_true low) room)

/-- A name is read as its own flag. -/
theorem ofPart?_name {name : String} {bit : Nat} (listed : (name, bit) ∈ kind.names.zipIdx) :
    ofPart? name.toList = some (single bit : Flags kind) := by
  -- The names are checked one by one, kind by kind.
  have known : ∀ entry ∈ kind.names.zipIdx,
      ofPart? entry.1.toList = some (single entry.2 : Flags kind) := by
    cases kind <;> decide
  exact known _ listed

/-- Bits are read back from their digits, whatever they stand for. -/
theorem ofPart?_hexDigits (flags : Flags kind) :
    ofPart? ('0' :: 'x' :: hexDigits flags.bits.toNat) = some flags := by
  -- The digits give the number of the bits, and this gives back the bits.
  simp [ofPart?, readHex_hexDigits]

/-- Reading parts one after the other unites the sets that they state. -/
theorem foldlM_ofPart? {parts : List (List Char)} {sets : List (Flags kind)}
    (states : parts.map ofPart? = sets.map some) (before : Flags kind) :
    parts.foldlM (fun flags part => do return flags ∪ (← ofPart? part)) before =
      some (sets.foldl (· ∪ ·) before) := by
  -- By induction on the parts, for any set to begin with.
  induction parts generalizing sets before with
  | nil =>
    rw [List.map_nil, eq_comm, List.map_eq_nil_iff] at states
    rw [states]
    rfl
  | cons part rest ih =>
    obtain ⟨set, others, rfl, one, later⟩ := List.map_eq_cons_iff.mp states.symm
    rw [List.foldlM_cons, ← one]
    exact ih later.symm (before ∪ set)

/-- A union of several sets has the flags of each. -/
theorem has_foldl_union (sets : List (Flags kind)) (before : Flags kind) (bit : Nat) :
    (sets.foldl (· ∪ ·) before).has bit = (before.has bit || sets.any (·.has bit)) := by
  -- By induction on the sets, for any set to begin with.
  induction sets generalizing before with
  | nil => simp
  | cons set rest ih => rw [List.foldl_cons, ih, has_union, List.any_cons, Bool.or_assoc]

/-- The named flags of a set, each as a set of its own. -/
def namedBlocks (flags : Flags kind) : List (Flags kind) :=
  -- In the order of the names, lowest flag first.
  (kind.names.zipIdx.filter fun (_, bit) => flags.has bit).map fun (_, bit) => single bit

/-- The unnamed flags of a set, all in one set, if there are any. -/
def restBlocks (flags : Flags kind) : List (Flags kind) :=
  -- Nothing is written for no flags.
  if (flags \ named).isEmpty then [] else [flags \ named]

/-- The parts of a written set are read as its named flags one by one, and then all the others. -/
theorem map_ofPart?_parts (flags : Flags kind) :
    flags.parts.map ofPart? = (flags.namedBlocks ++ flags.restBlocks).map some := by
  -- The names are read first, and then at most one number is left.
  have names : (flags.setNames.map String.toList).map ofPart? = flags.namedBlocks.map some := by
    unfold setNames namedBlocks
    simp only [List.map_map]
    exact List.map_congr_left fun entry listed => ofPart?_name (List.mem_filter.mp listed).1
  rw [parts, List.map_append, List.map_append, names, restBlocks]
  refine congrArg (_ ++ ·) ?_
  split
  · rfl
  · rw [List.map_singleton, List.map_singleton, ofPart?_hexDigits]

/-- The named flags of a set are the flags with a name that it has. -/
theorem any_has_namedBlocks (flags : Flags kind) (bit : Nat) :
    flags.namedBlocks.any (·.has bit) = (flags.has bit && decide (bit < kind.names.length)) := by
  -- A flag is found under its name, and every name belongs to one flag.
  have room := kind.length_names_le
  rw [Bool.eq_iff_iff, namedBlocks, List.any_map, List.any_eq_true, Bool.and_eq_true,
    decide_eq_true_eq]
  constructor
  · rintro ⟨⟨name, other⟩, listed, has⟩
    obtain ⟨listed, set⟩ := List.mem_filter.mp listed
    have low := (List.mem_zipIdx' listed).1
    have same : other = bit :=
      of_decide_eq_true ((has_single (Nat.lt_of_lt_of_le low room)).symm.trans has)
    exact same ▸ ⟨set, low⟩
  · rintro ⟨set, low⟩
    have listed : (kind.names[bit], bit) ∈ kind.names.zipIdx :=
      List.mk_mem_zipIdx_iff_getElem?.mpr (List.getElem?_eq_getElem low)
    refine ⟨_, List.mem_filter.mpr ⟨listed, set⟩, ?_⟩
    exact (has_single (Nat.lt_of_lt_of_le low room)).trans (decide_eq_true rfl)

/-- The unnamed flags of a set are the flags without a name that it has. -/
theorem any_has_restBlocks (flags : Flags kind) (bit : Nat) :
    flags.restBlocks.any (·.has bit) = (flags.has bit && !decide (bit < kind.names.length)) := by
  -- Without a block there is no unnamed flag.
  rw [restBlocks, ← has_named, ← has_diff]
  split
  · rename_i none
    rw [isEmpty_iff.mp none, has_empty, List.any_nil]
  · rw [List.any_cons, List.any_nil, Bool.or_false]

/-- Together the parts of a written set state the whole set. -/
theorem foldl_blocks (flags : Flags kind) :
    (flags.namedBlocks ++ flags.restBlocks).foldl (· ∪ ·) ∅ = flags := by
  -- A flag either has a name or not.
  refine ext_has fun bit => ?_
  rw [has_foldl_union, has_empty, Bool.false_or, List.any_append, any_has_namedBlocks,
    any_has_restBlocks, ← Bool.and_or_distrib_left, Bool.or_not_self, Bool.and_true]

/-- Every part of a written set is a piece of it. -/
theorem isPiece_of_mem_parts {part : List Char} (member : part ∈ flags.parts) :
    IsPiece '|' part := by
  rcases List.mem_append.mp member with named | rest
  · -- The names are known.
    have known : ∀ name ∈ kind.names, name.toList ≠ [] ∧
        name.toList.all (fun c => !isBlank c) = true ∧ '|' ∉ name.toList := by
      cases kind <;> decide
    obtain ⟨name, set, rfl⟩ := List.mem_map.mp named
    obtain ⟨entry, listed, rfl⟩ := List.mem_map.mp set
    obtain ⟨filled, solid, free⟩ :=
      known entry.1 (List.fst_mem_of_mem_zipIdx (List.mem_filter.mp listed).1)
    exact ⟨filled, by simpa using solid, free⟩
  · split at rest
    · cases rest
    · -- So are the digits.
      have known : ∀ digit < 16, isBlank digit.digitChar = false ∧ digit.digitChar ≠ '|' := by
        decide
      obtain rfl := List.mem_singleton.mp rest
      have each : ∀ c ∈ '0' :: 'x' :: hexDigits (flags \ Flags.named).bits.toNat,
          isBlank c = false ∧ c ≠ '|' := by
        refine List.forall_mem_cons.mpr ⟨by decide, List.forall_mem_cons.mpr ⟨by decide, ?_⟩⟩
        intro c member
        obtain ⟨digit, small, rfl⟩ := exists_of_mem_hexDigits member
        exact known digit small
      exact ⟨List.cons_ne_nil _ _, fun c member => (each c member).1,
        fun member => (each _ member).2 rfl⟩

/-- Whatever flags a set has, named or not, it is read back from its text. -/
theorem ofText?_text (flags : Flags kind) : ofText? flags.text = some flags := by
  have whole := foldlM_ofPart? (map_ofPart?_parts flags) ∅
  have pieces : ∀ part ∈ flags.parts, IsPiece '|' part := fun _ => isPiece_of_mem_parts
  rw [foldl_blocks] at whole
  unfold ofText? text
  rw [String.toList_ofList, trim_intercalate pieces]
  dsimp only
  cases parts : flags.parts with
  | nil =>
    -- The text is blank, and no part states anything.
    rw [parts, List.foldlM_nil] at whole
    exact whole
  | cons part rest =>
    have filled : List.intercalate [' ', '|', ' '] (part :: rest) ≠ [] :=
      intercalate_ne_nil (pieces part (parts ▸ .head rest)).filled
    have found := map_trim_splitAround_intercalate (by decide) (List.cons_ne_nil part rest)
      (parts ▸ pieces)
    rw [parts, ← found, List.foldlM_map] at whole
    rw [if_neg (by simpa using filled)]
    exact whole

end Flags

end WordTiles
