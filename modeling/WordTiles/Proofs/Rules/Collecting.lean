import WordTiles.Proofs.Rules.Listening

/-! Collecting statements: a rulebook is entered statement by statement, and in the end depends on
nothing but which categories the statements are about and what these are granted. -/

namespace WordTiles

namespace Rulebook

/-- Enters one more statement: the row of its category, which is made if there is none, grows by its
predicate. -/
def enter (rulebook : Rulebook) (statement : Category × Predicate) : Rulebook :=
  -- Rows of other categories are kept, present or not.
  ofFunction fun category =>
    if category = statement.1 then some ((rulebook.grants category).insert statement.2)
    else rulebook.row? category

/-- Some statement is about the category and states the grant. -/
def Confers (statements : List (Category × Predicate)) (category : Category) (grant : Grant) :
    Prop :=
  -- A statement about properties states each of their bits.
  ∃ predicate, (category, predicate) ∈ statements ∧ predicate.States grant

/-- Two lists of statements are about the same categories, and grant each of them the same. -/
structure SameRules (a b : List (Category × Predicate)) : Prop where
  about : ∀ category,
    (∃ predicate, (category, predicate) ∈ a) ↔ ∃ predicate, (category, predicate) ∈ b
  grants : ∀ category grant, Confers a category grant ↔ Confers b category grant

/-- Rulebooks with rows for the same categories and the same grants are the same. -/
theorem ext_grants {a b : Rulebook}
    (rows : ∀ category, (a.row? category).isSome = true ↔ (b.row? category).isSome = true)
    (same : ∀ category grant, (a.grants category).Has grant ↔ (b.grants category).Has grant) :
    a = b := by
  refine ext_row? fun category => ?_
  have present := rows category
  have equal : a.grants category = b.grants category := Grants.ext_has (same category)
  unfold grants at equal
  -- Both have a row or neither has one, and what is granted is the content of the row.
  cases left : a.row? category <;> cases right : b.row? category <;>
    simp_all only [Option.isSome_some, Option.isSome_none, Option.getD_some, reduceCtorEq, iff_true,
      iff_false, not_true_eq_false]

/-- A category has a row if a statement is about it. -/
theorem isSome_row?_ofStatements {statements : List (Category × Predicate)} {category : Category} :
    ((ofStatements statements).row? category).isSome = true ↔
      ∃ predicate, (category, predicate) ∈ statements := by
  -- The row is missing exactly if no statement is left after the filter.
  unfold ofStatements
  rw [row?_ofFunction]
  dsimp only
  split
  · rename_i nothing
    rw [List.isEmpty_iff, List.filter_eq_nil_iff] at nothing
    simp only [Option.isSome_none, Bool.false_eq_true, false_iff, not_exists]
    exact fun predicate stated => nothing _ stated (beq_self_eq_true category)
  · rename_i something
    simp only [Option.isSome_some, true_iff]
    obtain ⟨⟨other, predicate⟩, listed⟩ :=
      List.exists_mem_of_ne_nil _ fun nil => something (List.isEmpty_iff.mpr nil)
    obtain ⟨stated, about⟩ := List.mem_filter.mp listed
    exact ⟨predicate, beq_iff_eq.mp about ▸ stated⟩

/-- One statement more is one entry more. -/
theorem ofStatements_concat (statements : List (Category × Predicate))
    (statement : Category × Predicate) :
    ofStatements (statements ++ [statement]) = (ofStatements statements).enter statement := by
  obtain ⟨subject, stated⟩ := statement
  refine ext_grants (fun category => ?_) fun category grant => ?_
  · rw [isSome_row?_ofStatements, enter, row?_ofFunction]
    by_cases same : category = subject
    · simp [same]
    · simp [same, isSome_row?_ofStatements]
  · rw [has_grants_ofStatements]
    unfold grants
    rw [enter, row?_ofFunction]
    by_cases same : category = subject
    · -- The row of the subject grows by the statement.
      subst same
      rw [if_pos rfl, Option.getD_some, Grants.has_insert, has_grants_ofStatements]
      simp [or_and_right, exists_or]
    · -- Any other row stays, and no other category is spoken of.
      rw [if_neg same]
      show _ ↔ ((ofStatements statements).grants category).Has grant
      rw [has_grants_ofStatements]
      simp [same]

/-- So a rulebook is made by entering its statements one after the other. -/
theorem ofStatements_eq_foldl (statements : List (Category × Predicate)) :
    ofStatements statements = statements.foldl enter empty := by
  -- By induction on the statements that were entered so far.
  induction statements using List.reverseRecOn with
  | nil => decide
  | append_singleton entered last ih => rw [ofStatements_concat, ih, List.foldl_concat]

/-- Two lists make the same rulebook exactly if they state the same rules. -/
theorem ofStatements_eq_iff {a b : List (Category × Predicate)} :
    ofStatements a = ofStatements b ↔ SameRules a b := by
  -- A rulebook is determined by which rows it has and by what they grant.
  constructor
  · intro equal
    constructor
    · intro category
      rw [← isSome_row?_ofStatements, equal, isSome_row?_ofStatements]
    · intro category grant
      unfold Confers
      rw [← has_grants_ofStatements, equal, has_grants_ofStatements]
  · intro same
    apply ext_grants
    · intro category
      simp only [isSome_row?_ofStatements, same.about]
    · intro category grant
      rw [has_grants_ofStatements, has_grants_ofStatements]
      exact same.grants category grant

/-- Two lists of statements together grant what either grants. -/
theorem grants_ofStatements_append (a b : List (Category × Predicate)) (category : Category) :
    (ofStatements (a ++ b)).grants category =
      (ofStatements a).grants category ∪ (ofStatements b).grants category := by
  -- A statement of the joint list is one of either list.
  refine Grants.ext_has fun grant => ?_
  simp [has_grants_ofStatements, or_and_right, exists_or]

/-- A category turns into what is stated of it. -/
theorem mem_transforms_ofStatements_iff {statements : List (Category × Predicate)}
    {category target : Category} :
    target ∈ ((ofStatements statements).grants category).transforms ↔
      (category, .transform target) ∈ statements := by
  -- Only that very statement states this grant.
  show Grants.Has _ (.transform target) ↔ _
  rw [has_grants_ofStatements]
  simp [Predicate.states_transform_iff]

/-- The holders of some properties are the categories that are granted one of these. -/
theorem mem_holders_iff {rulebook : Rulebook} {properties : Properties} {category : Category} :
    category ∈ rulebook.holders properties ↔
      ∃ bit, (rulebook.grants category).properties.has bit = true ∧
        properties.has bit = true := by
  rw [← Flags.intersects_iff]
  unfold holders grants
  rw [List.mem_map]
  constructor
  · intro listed
    obtain ⟨⟨_, granted⟩, kept, rfl⟩ := listed
    obtain ⟨row, meets⟩ := List.mem_filter.mp kept
    rw [mem_rows_iff.mp row]
    exact meets
  · intro meets
    cases found : rulebook.row? category with
    | none =>
      -- Who has no row is granted nothing that could be met.
      rw [found, Flags.intersects_iff] at meets
      obtain ⟨bit, granted, _⟩ := meets
      simp [Grants.none] at granted
    | some granted =>
      rw [found] at meets
      exact ⟨(category, granted), List.mem_filter.mpr ⟨mem_rows_iff.mpr found, meets⟩, rfl⟩

/-- Holders are listed in order. -/
theorem pairwise_holders (rulebook : Rulebook) (properties : Properties) :
    (rulebook.holders properties).Pairwise (· < ·) :=
  -- They are a part of the rows, which ascend by category.
  List.pairwise_map.mpr (rulebook.ascending.filter _)

/-- What phrases grant is what one of them grants. -/
theorem has_grants_ofPhrases {phrases : List Phrase} {category : Category} {grant : Grant} :
    ((ofPhrases phrases).grants category).Has grant ↔
      ∃ phrase ∈ phrases, Confers phrase.statements category grant := by
  -- A statement of the phrases is one of some phrase.
  rw [ofPhrases, has_grants_ofStatements]
  simp only [Confers, List.mem_flatMap]
  grind

/-- Phrases make the same rulebook exactly if they grant the same, since no phrase states nothing of
a category. -/
theorem ofPhrases_eq_iff {a b : List Phrase} :
    ofPhrases a = ofPhrases b ↔ ∀ category grant,
      (∃ phrase ∈ a, Confers phrase.statements category grant) ↔
        ∃ phrase ∈ b, Confers phrase.statements category grant := by
  -- Rows of phrases are never empty, so that what they grant tells which rows there are.
  simp only [← has_grants_ofPhrases]
  constructor
  · intro equal category grant
    rw [equal]
  · intro same
    exact (tidy_ofPhrases a).ext (tidy_ofPhrases b) fun category => Grants.ext_has (same category)

/-- A rulebook depends on what is stated and on nothing else. It is entered statement by statement,
yet two lists make the same one exactly if they are about the same categories and grant these the
same, as they do when they have the same members. A category has a row if a statement is about it;
two lists together grant the union of what they grant, and targets are listed in order; the holders
of properties are, in order, the categories granted one of them. So phrases may come in any order
and any number of times, and may be traded for any others that grant the same. -/
theorem ofStatements_spec (a b : List (Category × Predicate)) :
    ofStatements a = a.foldl enter empty ∧
      (ofStatements a = ofStatements b ↔ SameRules a b) ∧
      ((∀ statement, statement ∈ a ↔ statement ∈ b) → ofStatements a = ofStatements b) ∧
      (∀ category,
        (((ofStatements a).row? category).isSome = true ↔
          ∃ predicate, (category, predicate) ∈ a) ∧
        ((ofStatements (a ++ b)).grants category).properties =
          ((ofStatements a).grants category).properties ∪
            ((ofStatements b).grants category).properties ∧
        ((ofStatements (a ++ b)).grants category).abilities =
          ((ofStatements a).grants category).abilities ∪
            ((ofStatements b).grants category).abilities ∧
        ((ofStatements (a ++ b)).grants category).transforms.toList.Pairwise (· < ·) ∧
        ∀ target, target ∈ ((ofStatements (a ++ b)).grants category).transforms.toList ↔
          (category, .transform target) ∈ a ∨ (category, .transform target) ∈ b) ∧
      (∀ properties, ((ofStatements a).holders properties).Pairwise (· < ·) ∧
        ∀ category, category ∈ (ofStatements a).holders properties ↔
          ∃ bit, ((ofStatements a).grants category).properties.has bit = true ∧
            properties.has bit = true) ∧
      ∀ phrases others : List Phrase,
        ((∀ phrase, phrase ∈ phrases ↔ phrase ∈ others) →
          ofPhrases phrases = ofPhrases others) ∧
        (ofPhrases phrases = ofPhrases others ↔ ∀ category grant,
          (∃ phrase ∈ phrases, Confers phrase.statements category grant) ↔
            ∃ phrase ∈ others, Confers phrase.statements category grant) := by
  refine ⟨ofStatements_eq_foldl a, ofStatements_eq_iff, ofStatements_congr, fun category => ?_,
    fun properties => ⟨pairwise_holders _ properties, fun _ => mem_holders_iff⟩,
    fun phrases others => ⟨fun same => ?_, ofPhrases_eq_iff⟩⟩
  · have together := grants_ofStatements_append a b category
    refine ⟨isSome_row?_ofStatements, congrArg Grants.properties together,
      congrArg Grants.abilities together, CategorySet.ascending _, fun target => ?_⟩
    show target ∈ Grants.transforms _ ↔ _
    rw [mem_transforms_ofStatements_iff, List.mem_append]
  · -- The same phrases grant the same.
    rw [ofPhrases_eq_iff]
    simp only [same, implies_true]

/-- Statements of every kind, one of them about a bit without a name, and the same out of order and
with one of them repeated. -/
theorem ofStatements_spec_shuffled :
    ofStatements [(.wall, .property .stop), (.rock, .transform .wall),
        (.wall, .ability (.single 7)), (.rock, .transform .i)] =
      ofStatements [(.rock, .transform .i), (.wall, .ability (.single 7)), (.wall, .property .stop),
        (.rock, .transform .wall), (.wall, .property .stop)] ∧
      ((ofStatements ([(.rock, .transform .wall), (.rock, .ability .float)] ++
        [(.rock, .transform .i), (.rock, .transform .wall)])).grants .rock).transforms.toList =
          [.i, .wall] ∧
      (ofStatements [(.wall, .property .hot), (.i, .property (.stop ∪ .single 20))]).holders
        (.single 20 ∪ .hot) = [.i, .wall] := by
  -- Both lists hold the same statements, repeated or not.
  refine ⟨(ofStatements_spec _ _).2.2.1 fun statement => ?_, by decide, by decide⟩
  simp only [List.mem_cons, List.not_mem_nil, or_false]
  tauto

end Rulebook

end WordTiles
