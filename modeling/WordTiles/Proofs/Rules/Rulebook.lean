import Mathlib.Data.List.Nodup
import WordTiles.Proofs.Rules.Granting
import WordTiles.Rules.Rulebook

/-! Rulebooks: how their rows are found, and what the phrases of a world can grant. The goal marker
stands for an association and is never stated, and nothing is ever stated about indicators. -/

namespace WordTiles

/-- Categories in ascending order are distinct. -/
theorem Category.nodup_of_pairwise {categories : List Category}
    (ascending : categories.Pairwise (· < ·)) : categories.Nodup := by
  -- No rank is below itself.
  refine ascending.imp fun less => ?_
  rintro rfl
  exact Nat.lt_irrefl _ less

namespace Rulebook

/-- A row is listed exactly if it is found under its category. -/
theorem mem_rows_iff {rulebook : Rulebook} {category : Category} {grants : Grants} :
    (category, grants) ∈ rulebook.rows ↔ rulebook.row? category = some grants := by
  -- No category has two rows, so the one that is found is the one that is listed.
  have distinct : (rulebook.rows.map Prod.fst).Nodup :=
    Category.nodup_of_pairwise (List.pairwise_map.mpr rulebook.ascending)
  unfold row?
  rw [Option.map_eq_some_iff]
  constructor
  · intro listed
    obtain ⟨row, found⟩ : ∃ row, rulebook.rows.find? (·.1 == category) = some row :=
      Option.isSome_iff_exists.mp (List.find?_isSome.mpr ⟨_, listed, beq_self_eq_true _⟩)
    have same : row.1 = category := by simpa using List.find?_some found
    cases List.inj_on_of_nodup_map distinct (List.mem_of_find?_eq_some found) listed same
    exact ⟨_, found, rfl⟩
  · rintro ⟨⟨other, _⟩, found, rfl⟩
    have same : other = category := by simpa using List.find?_some found
    exact same ▸ List.mem_of_find?_eq_some found

/-- Two rulebooks with the same rows are the same. -/
theorem ext_row? {a b : Rulebook} (same : ∀ category, a.row? category = b.row? category) :
    a = b := by
  -- Both are in order, and two lists in order with the same members are equal.
  have members (row : Category × Grants) : row ∈ a.rows ↔ row ∈ b.rows := by
    rw [mem_rows_iff, mem_rows_iff, same]
  obtain ⟨left, leftAscending⟩ := a
  obtain ⟨right, rightAscending⟩ := b
  have distinct {rows : List (Category × Grants)} (ascending : rows.Pairwise (·.1 < ·.1)) :
      rows.Nodup :=
    (Category.nodup_of_pairwise (List.pairwise_map.mpr ascending)).of_map _
  have permuted : left.Perm right :=
    (List.perm_ext_iff_of_nodup (distinct leftAscending) (distinct rightAscending)).mpr members
  congr
  exact permuted.eq_of_pairwise (fun _ _ _ _ less more => absurd less (Nat.lt_asymm more))
    leftAscending rightAscending

end Rulebook

/-- No property word states the goal marker. -/
theorem Word.has_goal_of_property? {word : Word} {flags : Properties}
    (states : word.property? = some flags) : flags.has 12 = false := by
  -- The words that state a property are looked up one by one.
  cases word <;> cases states <;> rfl

/-- The goal marker is one bit. -/
@[simp] theorem Properties.has_goal {bit : Nat} : Properties.goal.has bit = decide (12 = bit) :=
  -- The bit is within the width of the properties.
  Flags.has_single (by decide)

/-- A set has the goal marker when it contains it. -/
theorem Properties.contains_goal_iff {properties : Properties} :
    properties.contains Properties.goal = true ↔ properties.has 12 = true := by
  -- The marker is the one bit that both sides ask for.
  unfold Flags.contains
  rw [beq_iff_eq]
  constructor
  · intro within
    have marker : (properties ∩ Properties.goal).has 12 = true := by rw [within]; simp
    rw [Flags.has_inter, Bool.and_eq_true] at marker
    exact marker.1
  · intro marked
    refine Flags.ext_has fun other => ?_
    rw [Flags.has_inter, has_goal]
    by_cases same : 12 = other
    · subst same
      simp [marked]
    · simp [same]

/-- One set contains another when it has every flag of it. -/
theorem Flags.contains_iff {kind : FlagKind} {a b : Flags kind} :
    a.contains b = true ↔ ∀ bit, b.has bit = true → a.has bit = true := by
  -- The intersection is the smaller set exactly when no flag gets lost in it.
  unfold contains
  rw [beq_iff_eq]
  constructor
  · intro within bit set
    rw [← within, has_inter, Bool.and_eq_true] at set
    exact set.1
  · intro within
    refine ext_has fun bit => ?_
    rw [has_inter, Bool.and_eq_right_iff_imp]
    exact within bit

namespace Grants

/-- What a predicate states is granted. -/
def Includes (grants : Grants) : Predicate → Prop
  -- A predicate with several flags is included when all of them are.
  | .property flags => grants.properties.contains flags = true
  | .ability flags => grants.abilities.contains flags = true
  | .transform target => target ∈ grants.transforms

/-- A predicate is granted when everything that it states is. -/
theorem includes_iff {grants : Grants} {predicate : Predicate} :
    grants.Includes predicate ↔ ∀ grant, predicate.States grant → grants.Has grant := by
  -- Only grants of the kind of the predicate are stated by it.
  cases predicate with
  | property flags =>
    -- A set of flags states each of its flags.
    rw [Includes, Flags.contains_iff]
    constructor
    · intro within grant states
      cases grant with
      | property bit => exact within bit states
      | _ => cases states
    · exact fun within bit => within (.property bit)
  | ability flags =>
    rw [Includes, Flags.contains_iff]
    constructor
    · intro within grant states
      cases grant with
      | ability bit => exact within bit states
      | _ => cases states
    · exact fun within bit => within (.ability bit)
  | transform target =>
    constructor
    · intro within grant states
      cases grant with
      | transform other => exact (states : target = other) ▸ within
      | _ => cases states
    · exact fun within => within (.transform target) rfl

/-- A list of predicates grants each of them. -/
theorem includes_ofPredicates {predicates : List Predicate} {predicate : Predicate}
    (stated : predicate ∈ predicates) : (ofPredicates predicates).Includes predicate :=
  -- Each single grant that the predicate states is granted.
  includes_iff.mpr fun _ states => has_ofPredicates.mpr ⟨predicate, stated, states⟩

/-- What a list of predicates grants does not depend on their order, nor on repetitions. -/
theorem ofPredicates_congr {a b : List Predicate}
    (same : ∀ predicate, predicate ∈ a ↔ predicate ∈ b) : ofPredicates a = ofPredicates b :=
  -- Grants are told apart by the single ones, and these ask only what is in the list.
  ext_has fun grant => by simp only [has_ofPredicates, same]

/-- A category is associated with the goal when the goal is among its targets. -/
theorem reachesTerminal_iff {grants : Grants} :
    grants.reachesTerminal = true ↔ Category.goal ∈ grants.transforms := by
  -- The goal is the only terminal category.
  unfold reachesTerminal
  rw [List.any_eq_true]
  constructor
  · intro found
    obtain ⟨target, member, terminal⟩ := found
    cases beq_iff_eq.mp terminal
    exact member
  · intro member
    exact ⟨_, member, rfl⟩

end Grants

namespace Rulebook

/-- What a phrase states is about the categories that words name, and grants what words state. -/
theorem of_mem_statements {phrase : Phrase} {category : Category} {predicate : Predicate}
    (member : (category, predicate) ∈ phrase.statements) :
    (∃ word : Word, word.category? = some category) ∧
      ∃ (word : Word) (relation : Relation), word.predicate? relation = some predicate := by
  -- A statement pairs a noun of the subjects with what a predicate word grants.
  unfold Phrase.statements at member
  split at member
  · cases member
  · rename_i relation _
    obtain ⟨subject, named, member⟩ := List.mem_flatMap.mp member
    obtain ⟨placed, _, granted⟩ := List.mem_filterMap.mp member
    obtain ⟨_, states, same⟩ := Option.map_eq_some_iff.mp granted
    cases same
    obtain ⟨noun, _, names⟩ := List.mem_filterMap.mp named
    exact ⟨⟨noun.word, names⟩, placed.word, relation, states⟩

/-- The grants of a category are those of the statements about it. -/
theorem grants_ofStatements (statements : List (Category × Predicate)) (category : Category) :
    (ofStatements statements).grants category =
      .ofPredicates ((statements.filter (·.1 == category)).map Prod.snd) := by
  -- A category without a statement has no row, and no predicates grant nothing.
  unfold grants ofStatements
  rw [row?_ofFunction]
  dsimp only
  split
  · rename_i none
    rw [List.isEmpty_iff.mp none]
    rfl
  · rfl

/-- A category is granted what is stated of it. -/
theorem has_grants_ofStatements {statements : List (Category × Predicate)} {category : Category}
    {grant : Grant} : ((ofStatements statements).grants category).Has grant ↔
      ∃ predicate, (category, predicate) ∈ statements ∧ predicate.States grant := by
  -- The statements about the category are those that its row is made of.
  rw [grants_ofStatements, Grants.has_ofPredicates]
  simp

/-- The grants of a category are those that the phrases state of it. -/
theorem grants_ofPhrases (phrases : List Phrase) (category : Category) :
    (ofPhrases phrases).grants category = .ofPredicates
      (((phrases.flatMap Phrase.statements).filter (·.1 == category)).map Prod.snd) :=
  -- The rulebook of phrases is that of their statements.
  grants_ofStatements _ category

/-- Rules depend on what is stated, and not on who states it, how often or in which order. -/
theorem ofStatements_congr {a b : List (Category × Predicate)}
    (same : ∀ statement, statement ∈ a ↔ statement ∈ b) : ofStatements a = ofStatements b := by
  -- The statements about a category are the same, so it has the same row or none.
  unfold ofStatements
  refine congrArg ofFunction (funext fun category => ?_)
  have about (statement : Category × Predicate) :
      statement ∈ a.filter (·.1 == category) ↔ statement ∈ b.filter (·.1 == category) := by
    rw [List.mem_filter, List.mem_filter, same]
  have empty : (a.filter (·.1 == category)).isEmpty = (b.filter (·.1 == category)).isEmpty := by
    rw [Bool.eq_iff_iff, List.isEmpty_iff, List.isEmpty_iff, List.eq_nil_iff_forall_not_mem,
      List.eq_nil_iff_forall_not_mem]
    simp only [about]
  have granted : Grants.ofPredicates ((a.filter (·.1 == category)).map Prod.snd) =
      Grants.ofPredicates ((b.filter (·.1 == category)).map Prod.snd) :=
    Grants.ofPredicates_congr fun predicate => by simp only [List.mem_map, about]
  dsimp only
  rw [empty, granted]

/-- The rules of some phrases grant whatever one of them states. -/
theorem includes_ofPhrases {phrases : List Phrase} {phrase : Phrase} {category : Category}
    {predicate : Predicate} (listed : phrase ∈ phrases)
    (stated : (category, predicate) ∈ phrase.statements) :
    ((ofPhrases phrases).grants category).Includes predicate := by
  -- The statement is among those about its category.
  rw [grants_ofPhrases]
  refine Grants.includes_ofPredicates (List.mem_map.mpr ⟨(category, predicate), ?_, rfl⟩)
  exact List.mem_filter.mpr
    ⟨List.mem_flatMap.mpr ⟨phrase, listed, stated⟩, beq_iff_eq.mpr rfl⟩

/-- A category turns into what some phrase states of it. -/
theorem mem_transforms_ofPhrases_iff {phrases : List Phrase} {category target : Category} :
    target ∈ ((ofPhrases phrases).grants category).transforms ↔
      ∃ phrase ∈ phrases, (category, .transform target) ∈ phrase.statements := by
  -- A transform is a single grant, and its predicate is the only one that states it.
  show Grants.Has _ (.transform target) ↔ _
  rw [ofPhrases, has_grants_ofStatements]
  simp [Predicate.states_transform_iff]

/-- No category is granted the goal marker as a property. -/
theorem has_goal_ofPhrases (phrases : List Phrase) (category : Category) :
    ((ofPhrases phrases).grants category).properties.has 12 = false := by
  -- Properties come from property words, and none of these states the marker.
  refine eq_false_of_ne_true fun has => ?_
  obtain ⟨predicate, member, states⟩ :=
    has_grants_ofStatements.mp (show Grants.Has _ (.property 12) from has)
  obtain ⟨phrase, _, stated⟩ := List.mem_flatMap.mp member
  obtain ⟨_, word, relation, granted⟩ := of_mem_statements stated
  cases predicate with
  | property flags =>
    have property : word.property? = some flags := by
      cases word <;> cases relation <;> cases granted <;> rfl
    rw [Predicate.States, Word.has_goal_of_property? property] at states
    cases states
  | _ => cases states

/-- Nothing is granted to indicators. -/
theorem grants_indicator (phrases : List Phrase) :
    (ofPhrases phrases).grants .indicator = .none := by
  -- No word names the category of indicators, so no statement is about it.
  rw [grants_ofPhrases]
  have nothing : (phrases.flatMap Phrase.statements).filter (·.1 == .indicator) = [] := by
    refine List.filter_eq_nil_iff.mpr fun statement member about => ?_
    obtain ⟨phrase, _, stated⟩ := List.mem_flatMap.mp member
    obtain ⟨⟨word, named⟩, _⟩ := of_mem_statements stated
    rw [beq_iff_eq.mp about, Word.category?_eq_some_iff] at named
    cases named
  rw [nothing]
  rfl

/-- An entity carries the goal marker exactly when the goal is a target of its category. -/
theorem contains_goal_carriedProperties (phrases : List Phrase) (category : Category) :
    ((ofPhrases phrases).grants category).carriedProperties.contains Properties.goal = true ↔
      Category.goal ∈ ((ofPhrases phrases).grants category).transforms := by
  -- The marker is not granted, so it is there only if the association adds it.
  rw [Properties.contains_goal_iff, ← Grants.reachesTerminal_iff]
  have unmarked := has_goal_ofPhrases phrases category
  unfold Grants.carriedProperties
  cases associated : ((ofPhrases phrases).grants category).reachesTerminal with
  | false => simp [unmarked]
  | true => simp

end Rulebook

end WordTiles
