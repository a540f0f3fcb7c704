/-! Sets of flags in a word of fixed width: the properties and abilities that an entity carries. -/

namespace WordTiles

/-- The two vocabularies of flags. -/
inductive FlagKind where
  | property
  | ability
  deriving DecidableEq

namespace FlagKind

/-- The number of bits that a set of this kind holds, named or not. -/
@[reducible] def width : FlagKind → Nat
  | property => 32
  | ability => 8

/-- The names of the lowest bits, in bit order. -/
def names : FlagKind → List String
  -- The bit of a name is its place in the list, and `GOAL` is spelled by no word.
  | property => ["STOP", "PUSH", "PULL", "HOT", "MELT", "SINK", "BLUE", "GREEN", "GREY", "YELLOW",
      "RED", "PURPLE", "GOAL"]
  | ability => ["CLIMB", "JUMP", "SWIM", "FLOAT"]

end FlagKind

/-- A set of flags of one kind. A bit without a name is kept like any other. -/
structure Flags (kind : FlagKind) where
  /-- The flags as bits. -/
  bits : BitVec kind.width
  deriving DecidableEq

/-- What an object is or does: the flags granted with `IS`. -/
abbrev Properties := Flags .property

/-- What an object can do: the flags granted with `CAN`. -/
abbrev Abilities := Flags .ability

namespace Flags

variable {kind : FlagKind}

/-- The set without a flag. -/
def empty : Flags kind := ⟨0⟩

/-- The set of the one flag at a bit. -/
def single (bit : Nat) : Flags kind := ⟨BitVec.twoPow _ bit⟩

/-- The flags of either set. -/
def union (a b : Flags kind) : Flags kind := ⟨a.bits ||| b.bits⟩

/-- The flags of both sets. -/
def inter (a b : Flags kind) : Flags kind := ⟨a.bits &&& b.bits⟩

/-- The flags of the first set that the second lacks. -/
def diff (a b : Flags kind) : Flags kind := ⟨a.bits &&& ~~~b.bits⟩

/-- The flags of exactly one of the two sets. -/
def symmDiff (a b : Flags kind) : Flags kind := ⟨a.bits ^^^ b.bits⟩

instance : Union (Flags kind) := ⟨union⟩

instance : Inter (Flags kind) := ⟨inter⟩

instance : SDiff (Flags kind) := ⟨diff⟩

instance : EmptyCollection (Flags kind) := ⟨empty⟩

/-- Every flag that has a name. -/
def named : Flags kind :=
  -- The names fill the lowest bits, one each.
  ⟨(BitVec.allOnes kind.names.length).setWidth _⟩

/-- The named flags that a set lacks. -/
def complement (a : Flags kind) : Flags kind :=
  -- Unnamed bits are in no complement, since no rule can state them.
  named \ a

/-- No flag is set, named or not. -/
def isEmpty (a : Flags kind) : Bool :=
  -- Unnamed bits count: a set that has only these is not empty.
  a == ∅

/-- Every flag of the second set is in the first. -/
def contains (a b : Flags kind) : Bool :=
  -- The intersection loses nothing of the second set.
  a ∩ b == b

/-- Some flag is in both sets. -/
def intersects (a b : Flags kind) : Bool :=
  -- It is enough that one flag is shared.
  !(a ∩ b).isEmpty

/-- The set has the flag at a bit. -/
def has (a : Flags kind) (bit : Nat) : Bool := a.bits.getLsbD bit

/-- A set is determined by the bits of its flags. -/
theorem ext_has {a b : Flags kind} (same : ∀ bit, a.has bit = b.has bit) : a = b := by
  -- Equal bits make equal words.
  obtain ⟨left⟩ := a
  obtain ⟨right⟩ := b
  exact congrArg Flags.mk (BitVec.eq_of_getLsbD_eq fun bit _ => same bit)

/-- The empty set has no flag. -/
@[simp] theorem has_empty {bit : Nat} : (∅ : Flags kind).has bit = false :=
  BitVec.getLsbD_zero

/-- A union has the flags of either set. -/
@[simp] theorem has_union {a b : Flags kind} {bit : Nat} :
    (a ∪ b).has bit = (a.has bit || b.has bit) :=
  BitVec.getLsbD_or

/-- An intersection has the flags of both sets. -/
@[simp] theorem has_inter {a b : Flags kind} {bit : Nat} :
    (a ∩ b).has bit = (a.has bit && b.has bit) :=
  BitVec.getLsbD_and

/-- A difference has the flags of the first set that the second lacks. -/
@[simp] theorem has_diff {a b : Flags kind} {bit : Nat} :
    (a \ b).has bit = (a.has bit && !b.has bit) := by
  -- Beyond the width neither side has a flag.
  simp only [has, SDiff.sdiff, diff, BitVec.getLsbD_and, BitVec.getLsbD_not]
  by_cases inside : bit < kind.width
  · simp [inside]
  · simp [BitVec.getLsbD_of_ge a.bits bit (Nat.le_of_not_lt inside)]

/-- The set of one flag has that flag alone. -/
theorem has_single {bit other : Nat} (inside : bit < kind.width) :
    (single bit : Flags kind).has other = decide (bit = other) := by
  -- A power of two has one bit, which is kept if it is within the width.
  simp [has, single, BitVec.getLsbD_twoPow, inside]

/-- A set is empty if and only if it is the empty set. -/
theorem isEmpty_iff {a : Flags kind} : a.isEmpty = true ↔ a = ∅ := by
  -- The test compares the words of the two sets.
  simp [isEmpty]

/-- Two sets meet exactly when they have a flag in common. -/
theorem intersects_iff {a b : Flags kind} :
    a.intersects b = true ↔ ∃ bit, a.has bit = true ∧ b.has bit = true := by
  -- The intersection is empty exactly when no bit is in it.
  constructor
  · intro meets
    apply Classical.byContradiction
    intro apart
    have nothing : a ∩ b = ∅ := ext_has fun bit => by
      rw [has_inter, has_empty]
      cases left : a.has bit <;> cases right : b.has bit <;> simp_all
    simp [intersects, isEmpty_iff.mpr nothing] at meets
  · rintro ⟨bit, left, right⟩
    have shared : (a ∩ b).has bit = true := by simp [left, right]
    cases empty : (a ∩ b).isEmpty with
    | false => simp [intersects, empty]
    | true => simp [isEmpty_iff.mp empty] at shared

end Flags

namespace Properties

/-- Blocks movement altogether. -/
def stop : Properties := .single 0
/-- Moves when pushed. -/
def push : Properties := .single 1
/-- Moves when pulled. -/
def pull : Properties := .single 2
/-- Melts what can melt. -/
def hot : Properties := .single 3
/-- Can melt. -/
def melt : Properties := .single 4
/-- Drowns what shares its cell. -/
def sink : Properties := .single 5
/-- Tinted blue. -/
def blue : Properties := .single 6
/-- Tinted green. -/
def green : Properties := .single 7
/-- Tinted grey. -/
def grey : Properties := .single 8
/-- Tinted yellow. -/
def yellow : Properties := .single 9
/-- Tinted red. -/
def red : Properties := .single 10
/-- Tinted purple. -/
def purple : Properties := .single 11
/-- Belongs to a category that is associated with the goal; no property word spells it. -/
def goal : Properties := .single 12

/-- The six tints. -/
def colors : Properties :=
  -- A category is tinted by the colors that are stated of it, each of which is also a noun.
  blue ∪ green ∪ grey ∪ yellow ∪ red ∪ purple

/-- An entity stands in the way if it stops, or moves only by being pushed or pulled. -/
def isObstacle (properties : Properties) : Bool :=
  -- What pushes and pulls is decided by who moves; here any of the three stands in the way.
  properties.intersects (stop ∪ push ∪ pull)

end Properties

namespace Abilities

/-- Climbs. -/
def climb : Abilities := .single 0
/-- Jumps. -/
def jump : Abilities := .single 1
/-- Swims. -/
def swim : Abilities := .single 2
/-- Floats. -/
def float : Abilities := .single 3

end Abilities

end WordTiles
