/-! Object categories: what the rules are about. -/

namespace WordTiles

/-- The category of an entity. Rules grant to categories, not to single entities. -/
inductive Category where
  | i
  | wall
  | water
  | rock
  | lava
  | goal
  | text
  | blue
  | green
  | grey
  | yellow
  | red
  | purple
  | indicator
  deriving DecidableEq

namespace Category

/-- Every category, in the order in which categories are listed everywhere. -/
def all : List Category :=
  -- The order is that of the declaration, which tables and reports list their rows by.
  [i, wall, water, rock, lava, goal, text, blue, green, grey, yellow, red, purple, indicator]

/-- The place of a category in that order. -/
def rank (category : Category) : Nat :=
  -- The constructors stand in the order of the list.
  category.ctorIdx

instance : LT Category := ⟨fun a b => a.rank < b.rank⟩

instance (a b : Category) : Decidable (a < b) := inferInstanceAs (Decidable (a.rank < b.rank))

/-- The name of a category. -/
def name : Category → String
  | i => "I"
  | wall => "Wall"
  | water => "Water"
  | rock => "Rock"
  | lava => "Lava"
  | goal => "Goal"
  | text => "Text"
  | blue => "Blue"
  | green => "Green"
  | grey => "Grey"
  | yellow => "Yellow"
  | red => "Red"
  | purple => "Purple"
  | indicator => "Indicator"

/-- A terminal category is one that others are associated with; nothing turns into it. -/
def isTerminal (category : Category) : Bool :=
  -- The goal is the only one; being associated with it is a property, not a transform.
  category == goal

/-- No category is missing from the list of all. -/
theorem mem_all (category : Category) : category ∈ all := by
  -- There are finitely many categories, and each is looked up in the list.
  cases category <;> decide

/-- The list of all categories is in ascending order. -/
theorem pairwise_all : all.Pairwise (· < ·) := by
  -- Ranks are numerals, so that every pair of the list is compared by evaluation.
  decide

end Category

/-- A set of categories, held as the ascending list of its members. -/
structure CategorySet where
  /-- The members, in ascending order. -/
  toList : List Category
  /-- No member is listed twice or out of order. -/
  ascending : toList.Pairwise (· < ·)
  deriving DecidableEq

namespace CategorySet

instance : Membership Category CategorySet := ⟨fun set category => category ∈ set.toList⟩

instance (category : Category) (set : CategorySet) : Decidable (category ∈ set) :=
  inferInstanceAs (Decidable (category ∈ set.toList))

/-- The set of the categories that pass a test. -/
def filter (test : Category → Bool) : CategorySet :=
  -- Filtering the list of all categories keeps it ascending.
  ⟨Category.all.filter test, Category.pairwise_all.filter _⟩

/-- A category is in the set of a test exactly when it passes the test. -/
@[simp] theorem mem_filter {test : Category → Bool} {category : Category} :
    category ∈ filter test ↔ test category = true := by
  change category ∈ Category.all.filter test ↔ _
  simp [Category.mem_all]

/-- The set without a member. -/
def empty : CategorySet := ⟨[], .nil⟩

instance : EmptyCollection CategorySet := ⟨empty⟩

/-- The members of a list, whatever their order and repetition there. -/
def ofList (categories : List Category) : CategorySet :=
  -- Whatever the order in the list was, the members are listed by rank.
  filter (categories.contains ·)

/-- The set with one more member. -/
def insert (category : Category) (set : CategorySet) : CategorySet :=
  -- A member that is there already is not listed again.
  filter fun other => other == category || other ∈ set

/-- The members of the first set that the second lacks. -/
def diff (a b : CategorySet) : CategorySet :=
  filter fun category => category ∈ a && !(category ∈ b)

instance : SDiff CategorySet := ⟨diff⟩

/-- The set has no member. -/
def isEmpty (set : CategorySet) : Bool := set.toList.isEmpty

/-- A set is determined by its members. -/
theorem ext {a b : CategorySet} (same : ∀ category, category ∈ a ↔ category ∈ b) : a = b := by
  -- Two ascending lists with the same members are permutations of each other, hence equal.
  obtain ⟨left, leftAscending⟩ := a
  obtain ⟨right, rightAscending⟩ := b
  have distinct {list : List Category} (ascending : list.Pairwise (· < ·)) : list.Nodup :=
    ascending.imp fun less => by rintro rfl; exact Nat.lt_irrefl _ less
  have permuted : left.Perm right :=
    (List.perm_ext_iff_of_nodup (distinct leftAscending) (distinct rightAscending)).mpr same
  congr
  exact permuted.eq_of_pairwise (fun _ _ _ _ less more => absurd less (Nat.lt_asymm more))
    leftAscending rightAscending

/-- The empty set has no member. -/
@[simp] theorem not_mem_empty {category : Category} : ¬ category ∈ (∅ : CategorySet) :=
  List.not_mem_nil

/-- The members of the set of a list are those of the list. -/
@[simp] theorem mem_ofList {categories : List Category} {category : Category} :
    category ∈ ofList categories ↔ category ∈ categories := by
  -- The test of the set is membership in the list.
  simp [ofList]

/-- Insertion adds the one member. -/
@[simp] theorem mem_insert {added category : Category} {set : CategorySet} :
    category ∈ set.insert added ↔ category = added ∨ category ∈ set := by
  -- The test of the set is written out as a disjunction.
  simp [insert]

/-- A difference has the members of the first set alone. -/
@[simp] theorem mem_diff {a b : CategorySet} {category : Category} :
    category ∈ a \ b ↔ category ∈ a ∧ ¬ category ∈ b := by
  -- The test of the set is written out as a conjunction.
  simp [SDiff.sdiff, diff]

/-- A set is empty if and only if it is the empty set. -/
theorem isEmpty_iff {set : CategorySet} : set.isEmpty = true ↔ set = ∅ := by
  -- The list of members is the whole content of a set.
  obtain ⟨members, ascending⟩ := set
  simp [isEmpty, EmptyCollection.emptyCollection, empty]

end CategorySet

end WordTiles
