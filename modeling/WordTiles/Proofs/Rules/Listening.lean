import WordTiles.Proofs.Rules.Changes
import WordTiles.Proofs.Rules.Rounds
import WordTiles.Proofs.Rules.Rulebook
import WordTiles.Proofs.Sentence.Discovery

/-! Listeners of a reader: whoever carries out the changes that its readings report, on a rulebook
of their own, holds the rulebook of the reader at any time. -/

namespace WordTiles

namespace Grants

/-- The grants of either. -/
def union (a b : Grants) : Grants :=
  -- Sets are united part by part.
  ⟨a.properties ∪ b.properties, a.abilities ∪ b.abilities,
    .filter fun category => category ∈ a.transforms || category ∈ b.transforms⟩

instance : Union Grants := ⟨union⟩

/-- A union has the grants of either. -/
@[simp] theorem has_union {a b : Grants} {grant : Grant} :
    (a ∪ b).Has grant ↔ a.Has grant ∨ b.Has grant := by
  -- As for a difference, each part is looked at by itself.
  cases grant with
  | property bit =>
    show (a.properties ∪ b.properties).has bit = true ↔ _
    simp [Has]
  | ability bit =>
    show (a.abilities ∪ b.abilities).has bit = true ↔ _
    simp [Has]
  | transform target =>
    show target ∈ CategorySet.filter _ ↔ _
    simp [Has]

/-- Taking out what was lost and putting in what was gained leads from the old to the new. -/
theorem diff_union_diff (old new : Grants) : old \ (old \ new) ∪ new \ old = new := by
  -- This is so for each single grant, whether it was there before or not.
  refine ext_has fun grant => ?_
  simp only [has_union, has_diff]
  tauto

instance (grants : Grants) : (predicate : Predicate) → Decidable (grants.Includes predicate)
  | .property flags => inferInstanceAs (Decidable (grants.properties.contains flags = true))
  | .ability flags => inferInstanceAs (Decidable (grants.abilities.contains flags = true))
  | .transform target => inferInstanceAs (Decidable (target ∈ grants.transforms))

/-- What a word states is something. -/
theorem not_includes_none {word : Word} {relation : Relation} {predicate : Predicate}
    (states : word.predicate? relation = some predicate) : ¬none.Includes predicate := by
  -- The words that state anything are looked up under each relation.
  cases word <;> cases relation <;> cases states <;> decide

end Grants

namespace Rulebook

/-- No row is empty. -/
def Tidy (rulebook : Rulebook) : Prop :=
  -- A missing row is allowed, and an empty one is not.
  ∀ category grants, rulebook.row? category = some grants → grants.isNone = false

/-- Phrases make no empty row. -/
theorem tidy_ofPhrases (phrases : List Phrase) : (ofPhrases phrases).Tidy := by
  intro category grants found
  unfold ofPhrases ofStatements at found
  rw [row?_ofFunction] at found
  dsimp only at found
  split at found
  · cases found
  · rename_i stated
    cases found
    refine eq_false_of_ne_true fun empty => ?_
    -- Some predicate is stated of the category, and it is granted.
    obtain ⟨⟨about, predicate⟩, listed⟩ :=
      List.exists_mem_of_ne_nil _ fun nil => stated (List.isEmpty_iff.mpr nil)
    have granted := Grants.includes_ofPredicates (List.mem_map_of_mem (f := Prod.snd) listed)
    rw [Grants.isNone_iff.mp empty] at granted
    obtain ⟨phrase, _, states⟩ := List.mem_flatMap.mp (List.mem_filter.mp listed).1
    obtain ⟨_, word, relation, spelled⟩ := of_mem_statements states
    exact Grants.not_includes_none spelled granted

/-- A tidy rulebook has a row for everybody who is granted anything. -/
theorem Tidy.row?_eq {rulebook : Rulebook} (tidy : rulebook.Tidy) (category : Category) :
    rulebook.row? category =
      if (rulebook.grants category).isNone then none else some (rulebook.grants category) := by
  -- The row is missing exactly if nothing is granted.
  unfold grants
  cases found : rulebook.row? category with
  | none => rfl
  | some grants => simp [tidy category grants found]

/-- Tidy rulebooks are the same if they grant the same. -/
theorem Tidy.ext {a b : Rulebook} (left : a.Tidy) (right : b.Tidy)
    (same : ∀ category, a.grants category = b.grants category) : a = b :=
  -- The rows are determined by the grants.
  ext_row? fun category => by rw [left.row?_eq, right.row?_eq, same]

/-- What a listener makes of a change: what was lost is taken out, what was gained is put in, and an
empty row is dropped. -/
def amend (rulebook : Rulebook) (change : RuleChange) : Rulebook :=
  -- Taking out comes before putting in, although the two never meet.
  ofFunction fun category =>
    if category = change.category then
      let grants := rulebook.grants category \ change.removed ∪ change.added
      if grants.isNone then none else some grants
    else rulebook.row? category

/-- What a listener makes of several changes. -/
def heed (rulebook : Rulebook) (changes : List RuleChange) : Rulebook :=
  -- The order does not matter, since the changes are about different categories.
  changes.foldl amend rulebook

/-- What is granted once a change is carried out. -/
theorem grants_amend {rulebook : Rulebook} {change : RuleChange} {category : Category} :
    (rulebook.amend change).grants category =
      if category = change.category then
        rulebook.grants category \ change.removed ∪ change.added
      else rulebook.grants category := by
  unfold grants
  rw [amend, row?_ofFunction]
  split
  · -- A row that is dropped would have granted nothing.
    dsimp only
    split
    · rename_i empty
      exact (Grants.isNone_iff.mp empty).symm
    · rfl
  · rfl

/-- Carrying out a change leaves no empty row behind. -/
theorem Tidy.amend {rulebook : Rulebook} (tidy : rulebook.Tidy) (change : RuleChange) :
    (rulebook.amend change).Tidy := by
  -- An amended row is tested before it is kept, and the others were kept before.
  intro category grants found
  rw [Rulebook.amend, row?_ofFunction] at found
  split at found
  · dsimp only at found
    split at found
    · cases found
    · rename_i something
      cases found
      exact eq_false_of_ne_true something
  · exact tidy category grants found

/-- Nor does carrying out several changes. -/
theorem Tidy.heed {rulebook : Rulebook} (tidy : rulebook.Tidy) (changes : List RuleChange) :
    (rulebook.heed changes).Tidy := by
  -- One change after the other.
  induction changes generalizing rulebook with
  | nil => exact tidy
  | cons first rest ih => exact ih (tidy.amend first)

/-- Changes of other categories leave a category alone. -/
theorem grants_heed_of_not_mem {rulebook : Rulebook} {changes : List RuleChange}
    {category : Category} (other : ∀ change ∈ changes, change.category ≠ category) :
    (rulebook.heed changes).grants category = rulebook.grants category := by
  -- Each single change leaves the category alone.
  induction changes generalizing rulebook with
  | nil => rfl
  | cons first rest ih =>
    obtain ⟨differs, other⟩ := List.forall_mem_cons.mp other
    unfold heed at ih ⊢
    rw [List.foldl_cons, ih other, grants_amend, if_neg (Ne.symm differs)]

/-- The one change of a category decides on what it is granted. -/
theorem grants_heed_of_mem {rulebook : Rulebook} {changes : List RuleChange} {change : RuleChange}
    (distinct : changes.Pairwise fun a b => a.category ≠ b.category) (listed : change ∈ changes) :
    (rulebook.heed changes).grants change.category =
      rulebook.grants change.category \ change.removed ∪ change.added := by
  -- By induction on the changes: those in front of this one and behind it are of other categories.
  induction changes generalizing rulebook with
  | nil => cases listed
  | cons first rest ih =>
    obtain ⟨differs, distinct⟩ := List.pairwise_cons.mp distinct
    rcases List.mem_cons.mp listed with rfl | later
    · refine (grants_heed_of_not_mem fun other member => (differs other member).symm).trans ?_
      rw [grants_amend, if_pos rfl]
    · refine (ih distinct later).trans ?_
      rw [grants_amend, if_neg (Ne.symm (differs change later))]

/-- Whoever grants what the old rulebook does, and heeds the changes from there to another one,
grants what the other one does. -/
theorem grants_heed_changesTo {rulebook old new : Rulebook}
    (same : ∀ category, rulebook.grants category = old.grants category) (category : Category) :
    (rulebook.heed (old.changesTo new)).grants category = new.grants category := by
  by_cases listed : ∃ change ∈ old.changesTo new, change.category = category
  · -- The change of the category leads to its new grants.
    obtain ⟨change, listed, rfl⟩ := listed
    obtain ⟨_, added, removed⟩ := mem_changesTo_iff.mp listed
    rw [grants_heed_of_mem pairwise_changesTo listed, same, added, removed, Grants.diff_union_diff]
  · -- A category without a change is granted what it was granted.
    have unchanged : old.grants category = new.grants category :=
      not_not.mp (mt exists_change_of_ne listed)
    have other : ∀ change ∈ old.changesTo new, change.category ≠ category :=
      fun change member same => listed ⟨change, member, same⟩
    rw [grants_heed_of_not_mem other, same, unchanged]

/-- Whoever heeds the changes from one rulebook to another ends up with the other. -/
theorem heed_changesTo {old new : Rulebook} (before : old.Tidy) (after : new.Tidy) :
    old.heed (old.changesTo new) = new :=
  -- Both rulebooks are tidy and grant the same.
  (before.heed _).ext after (grants_heed_changesTo fun _ => rfl)

end Rulebook

namespace RuleReader

variable {reader after : RuleReader} {world : World} {config : Config} {elapsed : Duration}
  {reading : Reading}

/-- The latest reading found no phrase that spells these words. -/
def Lacks (reader : RuleReader) (words : List Word) : Prop :=
  -- What the reader knows is not asked here, only what it found.
  words ∉ reader.findings.phrases.map Phrase.spelling

/-- A reader that is in step knows what it does not lack. -/
theorem InStep.knows_eq_false_iff {phrase : Phrase} (inStep : reader.InStep) :
    reader.knows phrase = false ↔ reader.Lacks phrase.spelling := by
  -- The spellings that it knows are those of its findings.
  unfold knows Lacks
  rw [inStep.known, List.contains_eq_mem, decide_eq_false_iff_not]

/-- Of the paths that spell what the reader lacks none starts on a cell that is read before. -/
structure StartsNews (reader : RuleReader) (paths : List Phrase) (cell : Cell) : Prop where
  starts : ∃ path ∈ paths, reader.Lacks path.spelling ∧ path.firstCell = .ok cell
  least : ∀ path ∈ paths, reader.Lacks path.spelling →
    ∃ start, path.firstCell = .ok start ∧ (cell = start ∨ cell.ReadBefore start)

/-- A stale reader reports a cell exactly if it finds a phrase that it lacks, and then that of the
first such path. -/
theorem newPhraseCell_spec {findings : Findings} {time : Duration} (inStep : reader.InStep)
    (searched : world.search config = .ok findings)
    (reported : reader.readingOf world config findings time = .ok reading) :
    ∃ paths, world.board.paths config = .ok paths ∧
      (reading.newPhraseCell.isSome = true ↔
        ∃ phrase ∈ findings.phrases, reader.Lacks phrase.spelling) ∧
      ∀ cell, reading.newPhraseCell = some cell → reader.StartsNews paths cell := by
  -- The first phrase that the reader lacks is also the first such path, and paths start in order.
  obtain ⟨paths, survived, ordered, first⟩ := Board.find?_search searched
  have first : findings.phrases.find? (!reader.knows ·) = paths.find? (!reader.knows ·) :=
    first fun words => !reader.known.contains words
  have lacks (phrase : Phrase) : (!reader.knows phrase) = true ↔ reader.Lacks phrase.spelling := by
    rw [Bool.not_eq_true', inStep.knows_eq_false_iff]
  refine ⟨paths, survived, ?_⟩
  obtain ⟨_, _, _, ⟨none, nowhere⟩ | ⟨phrase, cell, found, starts, there⟩⟩ :=
    readingOf_eq_ok reported
  · rw [nowhere]
    refine ⟨⟨nofun, ?_⟩, nofun⟩
    rintro ⟨phrase, listed, new⟩
    exact absurd ((lacks phrase).mpr new) (List.find?_eq_none.mp none phrase listed)
  · have new := (lacks phrase).mp
      (List.find?_some (p := fun phrase => !reader.knows phrase) found)
    refine ⟨⟨fun _ => ⟨phrase, List.mem_of_find?_eq_some found, new⟩, fun _ => ?_⟩, ?_⟩
    · rw [there]
      rfl
    · intro other same
      cases there.symm.trans same
      rw [first] at found
      obtain ⟨_, front, back, split, known⟩ := List.find?_eq_some_iff_append.mp found
      refine ⟨⟨phrase, List.mem_of_find?_eq_some found, new, starts⟩, fun path listed fresh => ?_⟩
      -- Whatever is in front is known, and whatever is behind is not read before.
      rw [split, List.mem_append, List.mem_cons] at listed
      rcases listed with early | rfl | late
      · have knows := known path early
        rw [(lacks path).mpr fresh] at knows
        cases knows
      · exact ⟨cell, starts, .inl rfl⟩
      · rw [split] at ordered
        have behind := (List.pairwise_append.mp ordered).2.1
        obtain ⟨one, start, same, begins, order⟩ := (List.pairwise_cons.mp behind).1 path late
        cases starts.symm.trans same
        exact ⟨start, begins, order⟩

/-- What happens to a reader: it is told of a change, or some world has it update itself. -/
inductive Step where
  | signal
  | update (world : World) (config : Config) (elapsed : Duration)

/-- What an update reports, and what it is about. -/
structure Report where
  world : World
  config : Config
  reading : Reading

/-- Lets things happen to a reader one after the other, and collects what its updates report. -/
def run (reader : RuleReader) : List Step → Except Error (List Report × RuleReader)
  -- Being told of a change is nothing to report.
  | [] => .ok ([], reader)
  | .signal :: rest => reader.signal.run rest
  -- The report says what it is about, and the rest starts from the updated reader.
  | .update world config elapsed :: rest => do
    let (reading, reader) ← reader.advance world config elapsed
    let (reports, reader) ← reader.run rest
    return (⟨world, config, reading⟩ :: reports, reader)

/-- The rulebook of a listener who heeds the changes of every report. -/
def heedAll (rulebook : Rulebook) (reports : List Report) : Rulebook :=
  -- The listener does not see the world, only the reports.
  reports.foldl (fun rulebook report => rulebook.heed report.reading.changes) rulebook

/-- A listener who holds the rulebook of a reader still does after its next update. -/
theorem heed_advance (inStep : reader.InStep)
    (read : reader.advance world config elapsed = .ok (reading, after)) :
    reader.rulebook.heed reading.changes = after.rulebook := by
  -- A fresh reader reports no change, and a stale one the changes to what it goes by then.
  cases stale : reader.isStale with
  | false =>
    obtain ⟨same, rfl⟩ := advance_eq_of_fresh stale read
    rw [same]
    rfl
  | true =>
    obtain ⟨findings, _, _, same, reported⟩ := advance_eq_of_stale stale read
    obtain ⟨_, changes, _⟩ := readingOf_eq_ok reported
    rw [changes, same, inStep.rulebook]
    exact Rulebook.heed_changesTo (Rulebook.tidy_ofPhrases _) (Rulebook.tidy_ofPhrases _)

/-- So it is after any number of updates, which leave the reader in step. -/
theorem heedAll_run {steps : List Step} {reports : List Report} (inStep : reader.InStep)
    (ran : reader.run steps = .ok (reports, after)) :
    after.InStep ∧ heedAll reader.rulebook reports = after.rulebook := by
  -- By induction on the steps: a signal changes none of the three, and an update all or none.
  induction steps generalizing reader reports with
  | nil =>
    cases ran
    exact ⟨inStep, rfl⟩
  | cons step rest ih =>
    cases step with
    | signal =>
      have ran : reader.signal.run rest = .ok (reports, after) := ran
      obtain ⟨left, heeded⟩ := ih inStep.signal ran
      exact ⟨left, heeded⟩
    | update world config elapsed =>
      obtain ⟨⟨reading, next⟩, read, ran⟩ := bind_eq_ok_iff.mp ran
      obtain ⟨⟨later, last⟩, further, ran⟩ := bind_eq_ok_iff.mp ran
      cases ran
      obtain ⟨left, heeded⟩ := ih (inStep.advance read) further
      refine ⟨left, ?_⟩
      rw [← heeded, ← heed_advance inStep read]
      rfl

/-- The latest report of an update that read the words. -/
def latest? (reports : List Report) : Option Report :=
  -- A report of an update that read nothing is passed over.
  reports.reverse.find? (·.reading.reread)

/-- An update that reads the words leaves what a search of its world finds, and any other one leaves
the findings as they were. -/
theorem findings_advance (read : reader.advance world config elapsed = .ok (reading, after)) :
    (reading.reread = true ∧ world.search config = .ok after.findings) ∨
      (reading.reread = false ∧ after.findings = reader.findings) := by
  -- The flag decides whether the update reads.
  cases stale : reader.isStale with
  | false =>
    obtain ⟨same, rfl⟩ := advance_eq_of_fresh stale read
    rw [same]
    exact .inr ⟨rfl, rfl⟩
  | true =>
    obtain ⟨findings, searched, _, same, reported⟩ := advance_eq_of_stale stale read
    rw [same]
    exact .inl ⟨(readingOf_eq_ok reported).1, searched⟩

/-- So the findings are those of the latest update that read the words. -/
theorem findings_run {steps : List Step} {reports : List Report}
    (ran : reader.run steps = .ok (reports, after)) :
    match latest? reports with
    | none => after.findings = reader.findings
    | some report => report.world.search report.config = .ok after.findings := by
  -- By induction on the steps: the first report counts only if no later update read the words.
  induction steps generalizing reader reports with
  | nil =>
    cases ran
    rfl
  | cons step rest ih =>
    cases step with
    | signal =>
      -- Being told of a change leaves the findings alone.
      have told := ih (show reader.signal.run rest = .ok (reports, after) from ran)
      exact told
    | update world config elapsed =>
      obtain ⟨⟨reading, next⟩, read, ran⟩ := bind_eq_ok_iff.mp ran
      obtain ⟨⟨later, last⟩, further, ran⟩ := bind_eq_ok_iff.mp ran
      cases ran
      -- A later reading counts, if there is one, and else the first one.
      have told := ih further
      unfold latest? at told ⊢
      rw [List.reverse_cons, List.find?_append, List.find?_singleton]
      cases found : later.reverse.find? (·.reading.reread) with
      | some report =>
        rw [found] at told
        exact told
      | none =>
        rw [found] at told
        rcases findings_advance read with ⟨reread, searched⟩ | ⟨skipped, same⟩
        · rw [if_pos reread, Option.none_or]
          exact searched.trans (congrArg Except.ok told.symm)
        · rw [if_neg (by simp [skipped]), Option.none_or]
          exact told.trans same

/-- Whatever happens to a reader, on whatever worlds: a listener who has heeded every report holds
its rulebook. This and what the reader knows are always those of the phrases of its latest reading.
A fresh reader does not change with an update, and reports nothing. A stale one replaces all that it
holds by what a search of the world finds, and reports a new phrase exactly if the latest reading
lacked one, at the first cell where a surviving path starts that spells any such. -/
theorem run_initial_spec {steps : List Step} {reports : List Report}
    (ran : initial.run steps = .ok (reports, reader)) :
    heedAll .empty reports = reader.rulebook ∧
      reader.rulebook = .ofPhrases reader.findings.phrases ∧
      reader.known = reader.findings.phrases.map Phrase.spelling ∧
      (match latest? reports with
        | none => reader.findings = .empty
        | some report => report.world.search report.config = .ok reader.findings) ∧
      ∀ world config elapsed reading after,
        reader.advance world config elapsed = .ok (reading, after) →
          (reader.isStale = false →
            after = { reader with clock := after.clock } ∧ reading = .nothing after.clock) ∧
          (reader.isStale = true → ∃ findings paths, world.search config = .ok findings ∧
            after = ⟨false, .ofPhrases findings.phrases, findings,
              findings.phrases.map Phrase.spelling, reader.readingCount + 1, after.clock⟩ ∧
            world.board.paths config = .ok paths ∧
            (reading.newPhraseCell.isSome = true ↔
              ∃ phrase ∈ findings.phrases, reader.Lacks phrase.spelling) ∧
            ∀ cell, reading.newPhraseCell = some cell → reader.StartsNews paths cell) := by
  obtain ⟨inStep, heeded⟩ := heedAll_run inStep_initial ran
  refine ⟨heeded, inStep.rulebook, inStep.known, findings_run ran, ?_⟩
  intro world config elapsed reading after read
  refine ⟨fun fresh => advance_eq_of_fresh fresh read, fun stale => ?_⟩
  -- What is new is decided by the pieces that the run has kept in step.
  obtain ⟨findings, searched, _, same, reported⟩ := advance_eq_of_stale stale read
  obtain ⟨paths, survived, new, first⟩ := newPhraseCell_spec inStep searched reported
  exact ⟨findings, paths, searched, same, survived, new, first⟩

/-- One world, read once and asked again, another one, and the first once more, whose phrase is new
again: a listener follows. -/
theorem run_initial_rows : ∃ first second reports reader,
    World.row [.rock, .is, .push] = .ok first ∧ World.row [.wall, .is, .stop] = .ok second ∧
      initial.run [.update first .standard .zero, .update first .standard .zero, .signal,
          .update second .standard .zero, .signal, .update first .standard .zero] =
        .ok (reports, reader) ∧
      reports.map (·.reading.newPhraseCell) =
        [some ⟨0, 0⟩, none, some ⟨0, 0⟩, some ⟨0, 0⟩] ∧
      reader.known = [[.rock, .is, .push]] ∧ heedAll .empty reports = reader.rulebook ∧
        reader.rulebook = .ofPhrases reader.findings.phrases := by
  -- The run is evaluated, and the theorem says what it leaves behind.
  have known : (do
      let first ← World.row [.rock, .is, .push]
      let second ← World.row [.wall, .is, .stop]
      let ran ← initial.run [.update first .standard .zero, .update first .standard .zero,
        .signal, .update second .standard .zero, .signal, .update first .standard .zero]
      return (ran.1.map (·.reading.newPhraseCell), ran.2.known) : Except Error _) =
        .ok ([some ⟨0, 0⟩, none, some ⟨0, 0⟩, some ⟨0, 0⟩], [[.rock, .is, .push]]) := by
    cbv
  obtain ⟨first, one, known⟩ := bind_eq_ok_iff.mp known
  obtain ⟨second, other, known⟩ := bind_eq_ok_iff.mp known
  obtain ⟨⟨reports, reader⟩, ran, known⟩ := bind_eq_ok_iff.mp known
  obtain ⟨cells, spelled⟩ := Prod.mk.inj (Except.ok.inj known)
  obtain ⟨heeded, rules, _⟩ := run_initial_spec ran
  exact ⟨first, second, reports, reader, one, other, ran, cells, spelled, heeded, rules⟩

end RuleReader

end WordTiles
