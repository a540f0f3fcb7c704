import WordTiles.Proofs.Rules.Rulebook
import WordTiles.Proofs.Sentence.Stated
import WordTiles.Rules.Reading

/-! Where an indicator belongs: the first predicate word that states its transform, which there is
exactly when the rules of the phrases hold that transform. -/

namespace WordTiles

namespace Phrase

/-- A word of the phrase is a predicate that states a transform. -/
def StatesTransform (phrase : Phrase) (indicator : Indicator) (word : PlacedWord) : Prop :=
  -- The predicate states it of every subject, and so of this one.
  word ∈ phrase.predicates ∧ indicator.subject ∈ phrase.subjects ∧
    ∃ relation, phrase.relation? = some relation ∧
      word.word.predicate? relation = some (.transform indicator.target)

/-- Whether a word would state a transform as a predicate of the phrase. -/
def tellsTransform (phrase : Phrase) (indicator : Indicator) (word : PlacedWord) : Bool :=
  -- The word itself need not be in the phrase.
  phrase.subjects.contains indicator.subject &&
    (phrase.relation?.bind word.word.predicate? == some (.transform indicator.target))

/-- Those of the predicates that do state it. -/
theorem statesTransform_iff {phrase : Phrase} {indicator : Indicator} {word : PlacedWord} :
    phrase.StatesTransform indicator word ↔
      word ∈ phrase.predicates ∧ phrase.tellsTransform indicator word = true := by
  -- Both say the same of relation, subject and target.
  unfold StatesTransform tellsTransform
  rw [Bool.and_eq_true, List.contains_iff_mem, beq_iff_eq, Option.bind_eq_some_iff]

/-- A phrase states a transform when one of its predicates does. -/
theorem transform_mem_statements_iff {phrase : Phrase} {indicator : Indicator} :
    (indicator.subject, .transform indicator.target) ∈ phrase.statements ↔
      ∃ word, phrase.StatesTransform indicator word := by
  -- The same conditions are taken in another order.
  rw [mem_statements_iff]
  constructor
  · rintro ⟨relation, states, named, word, told, grants⟩
    exact ⟨word, told, named, relation, states, grants⟩
  · rintro ⟨word, told, named, relation, states, grants⟩
    exact ⟨relation, states, named, word, told, grants⟩

end Phrase

/-- The word is the first predicate, in reading order, that states the transform: none of an earlier
phrase does, and none before it in its own phrase. -/
def FirstStates (phrases : List Phrase) (indicator : Indicator) (word : PlacedWord) : Prop :=
  -- Reading order goes by phrases, and within one by predicates.
  ∃ before phrase after front back, phrases = before ++ phrase :: after ∧
    phrase.predicates = front ++ word :: back ∧ phrase.StatesTransform indicator word ∧
      (∀ other ∈ front, ¬ phrase.StatesTransform indicator other) ∧
        ∀ earlier ∈ before, ∀ other, ¬ earlier.StatesTransform indicator other

/-- What a word tells of each subject is told at its own cell. -/
theorem find?_subjects (subjects : List Category) (target : Category) (cell : Cell)
    (indicator : Indicator) :
    ((subjects.map fun subject => ((⟨subject, target⟩ : Indicator), cell)).find?
      (·.1 == indicator)).map Prod.snd =
        if subjects.contains indicator.subject && target == indicator.target then some cell
        else none := by
  -- It does not matter which subject is found, but only whether one is.
  have found : (subjects.find? fun subject => (⟨subject, target⟩ : Indicator) == indicator).isSome =
      (subjects.contains indicator.subject && target == indicator.target) := by
    obtain ⟨about, becomes⟩ := indicator
    rw [List.isSome_find?, Bool.eq_iff_iff, List.any_eq_true, Bool.and_eq_true,
      List.contains_iff_mem, beq_iff_eq]
    simp only [beq_iff_eq, Indicator.mk.injEq]
    constructor
    · rintro ⟨subject, listed, rfl, rfl⟩
      exact ⟨listed, rfl⟩
    · rintro ⟨listed, rfl⟩
      exact ⟨about, listed, rfl, rfl⟩
  rw [← found, List.find?_map, Option.map_map]
  change (subjects.find? fun subject => (⟨subject, target⟩ : Indicator) == indicator).map
    (fun _ => cell) = _
  cases subjects.find? fun subject => (⟨subject, target⟩ : Indicator) == indicator <;> rfl

/-- What one word of a phrase tells is a transform if it states that one. -/
theorem Phrase.find?_told (phrase : Phrase) {relation : Relation}
    (states : phrase.relation? = some relation) (word : PlacedWord) (indicator : Indicator) :
    ((match word.word.predicate? relation with
      | some (.transform target) =>
        phrase.subjects.map fun subject => (⟨subject, target⟩, word.position)
      | _ => [] : List (Indicator × Cell)).find? (·.1 == indicator)).map Prod.snd =
        if phrase.tellsTransform indicator word then some word.position else none := by
  -- Properties and abilities tell no transform, and a transform is told of each subject.
  unfold tellsTransform
  rw [states, Option.bind_some]
  cases word.word.predicate? relation with
  | none => simp
  | some predicate =>
    cases predicate with
    | property flags =>
      have differs : (some (Predicate.property flags) ==
        some (.transform indicator.target)) = false := beq_eq_false_iff_ne.mpr nofun
      simp [differs]
    | ability flags =>
      have differs : (some (Predicate.ability flags) ==
        some (.transform indicator.target)) = false := beq_eq_false_iff_ne.mpr nofun
      simp [differs]
    | transform target =>
      have same : (some (Predicate.transform target) ==
          some (.transform indicator.target)) = (target == indicator.target) := by
        rw [Bool.eq_iff_iff]
        simp
      rw [same]
      exact find?_subjects phrase.subjects target word.position indicator

/-- The site of a transform is found phrase by phrase, and predicate by predicate. -/
theorem siteOf_eq_findSome? (phrases : List Phrase) (indicator : Indicator) :
    siteOf phrases indicator = phrases.findSome? fun phrase =>
      (phrase.predicates.find? (phrase.tellsTransform indicator)).map (·.position) := by
  unfold siteOf statedTransforms
  rw [List.find?_flatMap, List.map_findSome?]
  refine congrArg (List.findSome? · phrases) (funext fun phrase => ?_)
  dsimp only [Function.comp_apply]
  cases states : phrase.relation? with
  | none =>
    -- A phrase without a relation tells nothing.
    have silent : phrase.predicates.find? (phrase.tellsTransform indicator) = none :=
      List.find?_eq_none.mpr fun word _ => by simp [Phrase.tellsTransform, states]
    rw [silent]
    rfl
  | some relation =>
    dsimp only
    induction phrase.predicates with
    | nil => rfl
    | cons word rest ih =>
      rw [List.flatMap_cons, List.find?_append, Option.map_or, ih, List.find?_cons]
      refine (congrArg (Option.or · _) (phrase.find?_told states word indicator)).trans ?_
      cases phrase.tellsTransform indicator word <;> rfl

/-- The site of a transform is the cell of the first predicate that states it. -/
theorem exists_firstStates {phrases : List Phrase} {indicator : Indicator} {site : Cell}
    (found : siteOf phrases indicator = some site) :
    ∃ word, FirstStates phrases indicator word ∧ word.position = site := by
  -- A first hit splits the list of phrases, and then the predicates of its phrase.
  rw [siteOf_eq_findSome?] at found
  obtain ⟨before, phrase, after, split, found, none⟩ := List.findSome?_eq_some_iff.mp found
  obtain ⟨word, found, here⟩ := Option.map_eq_some_iff.mp found
  obtain ⟨tells, front, back, words, silent⟩ := List.find?_eq_some_iff_append.mp found
  refine ⟨word, ⟨before, phrase, after, front, back, split, words, ?_, ?_, ?_⟩, here⟩
  · exact Phrase.statesTransform_iff.mpr ⟨by simp [words], tells⟩
  · intro other member states
    have tells := (Phrase.statesTransform_iff.mp states).2
    have untold := silent other member
    rw [tells] at untold
    cases untold
  · intro earlier member other states
    obtain ⟨listed, tells⟩ := Phrase.statesTransform_iff.mp states
    have nothing := Option.map_eq_none_iff.mp (none earlier member)
    exact List.find?_eq_none.mp nothing other listed tells

/-- There is a site exactly for what some phrase states. -/
theorem isSome_siteOf_iff {phrases : List Phrase} {indicator : Indicator} :
    (siteOf phrases indicator).isSome = true ↔
      ∃ phrase ∈ phrases, (indicator.subject, .transform indicator.target) ∈ phrase.statements := by
  -- There is a first hit exactly if there is any.
  rw [siteOf_eq_findSome?, List.findSome?_isSome_iff]
  refine exists_congr fun phrase => and_congr_right fun _ => ?_
  rw [Option.isSome_map, List.find?_isSome, Phrase.transform_mem_statements_iff]
  exact exists_congr fun word => Phrase.statesTransform_iff.symm

/-- There is a site exactly for what the rules of the phrases hold. -/
theorem isSome_siteOf_iff_mem_transforms {phrases : List Phrase} {indicator : Indicator} :
    (siteOf phrases indicator).isSome = true ↔
      indicator.target ∈ ((Rulebook.ofPhrases phrases).grants indicator.subject).transforms := by
  -- The rules of phrases are what the phrases state.
  rw [isSome_siteOf_iff, Rulebook.mem_transforms_ofPhrases_iff]

end WordTiles
