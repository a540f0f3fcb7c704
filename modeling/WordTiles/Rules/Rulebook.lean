import WordTiles.Phrase.Basic
import WordTiles.Rules.Grants

/-! Rulebooks: what each category is granted. -/

namespace WordTiles

/-- A rulebook, held as the ascending list of its rows. -/
structure Rulebook where
  /-- Each category that a rule is about, with its grants. -/
  rows : List (Category × Grants)
  /-- No category has two rows, and rows are in order. -/
  ascending : rows.Pairwise (·.1 < ·.1)
  deriving DecidableEq

namespace Rulebook

/-- The rulebook that gives each category the row that a function assigns to it. -/
def ofFunction (row : Category → Option Grants) : Rulebook where
  -- Rows are asked for in category order, so that they come out ascending.
  rows := Category.all.filterMap fun category => (row category).map (category, ·)
  ascending := by
    refine List.Pairwise.filterMap _ (fun a b less x fromA y fromB => ?_) Category.pairwise_all
    obtain ⟨_, _, rfl⟩ := Option.map_eq_some_iff.mp fromA
    obtain ⟨_, _, rfl⟩ := Option.map_eq_some_iff.mp fromB
    exact less

/-- The row of a category. -/
def row? (rulebook : Rulebook) (category : Category) : Option Grants :=
  -- No category has two rows, so that the first hit is the only one.
  (rulebook.rows.find? (·.1 == category)).map Prod.snd

/-- The rulebook without a row. -/
def empty : Rulebook := ⟨[], .nil⟩

/-- The rulebook of a list of statements. A category has a row if some statement is about it. -/
def ofStatements (statements : List (Category × Predicate)) : Rulebook :=
  ofFunction fun category =>
    -- A category that no statement is about has no row, not an empty one.
    let stated := statements.filter (·.1 == category)
    if stated.isEmpty then none else some (.ofPredicates (stated.map Prod.snd))

/-- The rulebook that a list of phrases states. -/
def ofPhrases (phrases : List Phrase) : Rulebook :=
  -- Phrases count in the order of discovery, and all their statements alike.
  ofStatements (phrases.flatMap Phrase.statements)

/-- The grants of a category, which are none if it has no row. -/
def grants (rulebook : Rulebook) (category : Category) : Grants :=
  -- A missing row and an empty one grant the same.
  (rulebook.row? category).getD .none

/-- The categories granted any of these properties, in order. -/
def holders (rulebook : Rulebook) (properties : Properties) : List Category :=
  -- One of the properties is enough.
  (rulebook.rows.filter fun (_, grants) => grants.properties.intersects properties).map Prod.fst

/-- The category is granted every one of these properties. -/
def grantsAll (rulebook : Rulebook) (category : Category) (properties : Properties) : Bool :=
  -- Here every one of the properties is needed.
  (rulebook.grants category).properties.contains properties

/-- The rulebook of a function has the rows that the function assigns. -/
@[simp] theorem row?_ofFunction (row : Category → Option Grants) (category : Category) :
    (ofFunction row).row? category = row category := by
  -- The first row found under a category is the only one listed for it.
  have lookup : ∀ categories : List Category, category ∈ categories →
      ((categories.filterMap fun other => (row other).map (other, ·)).find? (·.1 == category)).map
        Prod.snd = row category := by
    intro categories member
    induction categories with
    | nil => simp at member
    | cons head rest ih =>
      -- The row of the first category is built from that category alone.
      by_cases same : head = category
      · subst same
        cases found : row head with
        | none =>
          simp only [List.filterMap_cons, found, Option.map_none]
          by_cases again : head ∈ rest
          · rw [ih again, found]
          · have absent : (rest.filterMap fun other => (row other).map (other, ·)).find?
                (·.1 == head) = none := by
              refine List.find?_eq_none.mpr fun pair listed => ?_
              obtain ⟨other, inside, mapped⟩ := List.mem_filterMap.mp listed
              obtain ⟨_, _, rfl⟩ := Option.map_eq_some_iff.mp mapped
              simpa using fun same : other = head => again (same ▸ inside)
            rw [absent, Option.map_none]
        | some grants => simp [found]
      · have further : category ∈ rest := by simpa [Ne.symm same] using member
        cases found : row head with
        | none => simpa [found] using ih further
        | some grants => simpa [found, same] using ih further
  exact lookup Category.all (Category.mem_all category)

end Rulebook

end WordTiles
