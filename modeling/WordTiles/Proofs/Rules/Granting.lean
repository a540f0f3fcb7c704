import WordTiles.Rules.Grants

/-! Grants taken apart: each property, each ability and each transform is a grant of its own, and
every operation on grants is known by what it does to these. -/

namespace WordTiles

/-- One single thing that a category can be granted. Properties and abilities go by their bits, with
or without a name. -/
inductive Grant where
  | property (bit : Nat)
  | ability (bit : Nat)
  | transform (target : Category)
  deriving DecidableEq

/-- The predicate states the grant. -/
def Predicate.States : Predicate → Grant → Prop
  -- A predicate of one kind states no grant of another.
  | .property flags, .property bit => flags.has bit = true
  | .ability flags, .ability bit => flags.has bit = true
  | .transform target, .transform other => target = other
  | _, _ => False

/-- A transform is stated by the predicate of its target alone. -/
theorem Predicate.states_transform_iff {predicate : Predicate} {target : Category} :
    predicate.States (.transform target) ↔ predicate = .transform target := by
  -- The two other kinds state no transform.
  cases predicate <;> simp [States]

namespace Grants

variable {a b grants : Grants} {grant : Grant} {predicate : Predicate}

/-- The grant is one of the grants. -/
def Has (grants : Grants) : Grant → Prop
  -- Each kind of grant is looked up in its own part.
  | .property bit => grants.properties.has bit = true
  | .ability bit => grants.abilities.has bit = true
  | .transform target => target ∈ grants.transforms

/-- Grants are determined by the single ones. -/
theorem ext_has (same : ∀ grant, a.Has grant ↔ b.Has grant) : a = b := by
  -- Properties and abilities are compared bit by bit, and transforms member by member.
  have properties : a.properties = b.properties :=
    Flags.ext_has fun bit => Bool.eq_iff_iff.mpr (same (.property bit))
  have abilities : a.abilities = b.abilities :=
    Flags.ext_has fun bit => Bool.eq_iff_iff.mpr (same (.ability bit))
  have transforms : a.transforms = b.transforms :=
    CategorySet.ext fun category => same (.transform category)
  exact (Grants.mk.injEq ..).mpr ⟨properties, abilities, transforms⟩

/-- Nothing is granted by no grants. -/
@[simp] theorem not_has_none : ¬none.Has grant := by
  -- All three parts are empty.
  cases grant <;> simp [Has, none]

/-- Grants are none exactly if nothing is granted. -/
theorem isNone_iff : grants.isNone = true ↔ grants = none := by
  -- Each of the three tests says that its part is empty.
  obtain ⟨properties, abilities, transforms⟩ := grants
  simp only [isNone, none, Bool.and_eq_true, Flags.isEmpty_iff, CategorySet.isEmpty_iff,
    Grants.mk.injEq, and_assoc]

/-- Insertion adds what is stated. -/
@[simp] theorem has_insert :
    (grants.insert predicate).Has grant ↔ grants.Has grant ∨ predicate.States grant := by
  -- Only one of the three sets grows, and it grows by what the predicate states.
  cases predicate with
  | property flags => cases grant <;> simp [insert, Has, Predicate.States]
  | ability flags => cases grant <;> simp [insert, Has, Predicate.States]
  | transform target =>
    cases grant with
    | property bit => simp [insert, Has, Predicate.States]
    | ability bit => simp [insert, Has, Predicate.States]
    | transform other =>
      show other ∈ grants.transforms.insert target ↔ other ∈ grants.transforms ∨ target = other
      rw [CategorySet.mem_insert, or_comm, eq_comm]

/-- A difference has the grants of the first that the second lacks. -/
@[simp] theorem has_diff : (a \ b).Has grant ↔ a.Has grant ∧ ¬b.Has grant := by
  -- The difference is taken part by part.
  cases grant with
  | property bit =>
    show (a.properties \ b.properties).has bit = true ↔ _
    simp [Has]
  | ability bit =>
    show (a.abilities \ b.abilities).has bit = true ↔ _
    simp [Has]
  | transform target => exact CategorySet.mem_diff

/-- A list of predicates adds whatever one of them states. -/
theorem has_foldl_insert {predicates : List Predicate} :
    (predicates.foldl insert grants).Has grant ↔
      grants.Has grant ∨ ∃ predicate ∈ predicates, predicate.States grant := by
  -- By induction on the predicates, each of which adds to those before it.
  induction predicates generalizing grants with
  | nil => simp
  | cons first rest ih => simp [ih, or_assoc]

/-- What a list of predicates grants is what one of them states. -/
theorem has_ofPredicates {predicates : List Predicate} :
    (ofPredicates predicates).Has grant ↔
      ∃ predicate ∈ predicates, predicate.States grant := by
  -- The fold starts from no grants, and each predicate adds what it states.
  rw [ofPredicates, has_foldl_insert, or_iff_right not_has_none]

end Grants

end WordTiles
