import WordTiles.Proofs.Rules.Collapsing
import WordTiles.Proofs.Rules.Listening
import WordTiles.Proofs.Rules.Totality
import WordTiles.Proofs.Sentence.Faces

/-! The order in which word tiles were placed: it decides on identifiers and on layers, and has no
say in the rules. -/

namespace WordTiles

/-- To each of these paths there is one of the others that looks alike. -/
def Mirrored (paths others : List Phrase) : Prop :=
  -- One direction only, so that each of two lists can mirror the other.
  ∀ path ∈ paths, ∃ twin ∈ others, path.Alike twin

/-- Mirrored paths pass the same cells. -/
theorem Passed.of_mirrored {paths others : List Phrase} (mirrored : Mirrored paths others)
    {cell : Cell} {words : List Word} {direction : Direction} {role : PathRole}
    (passed : Passed paths cell words direction role) :
    Passed others cell words direction role := by
  -- The twin spells the same and passes the same cells.
  obtain ⟨path, listed, rfl, passes⟩ := passed
  obtain ⟨twin, listed', alike⟩ := mirrored path listed
  exact ⟨twin, listed', alike.spelling_eq, passes.congr alike⟩

/-- Phrases that look alike state the same. -/
theorem Phrase.Alike.statements_eq {a b : Phrase} (alike : a.Alike b) :
    b.statements = a.statements := by
  -- The faces tell every word and its part.
  have readings := congrArg (List.map PlacedWord.reading) alike
  rw [List.map_map, List.map_map] at readings
  exact Phrase.statements_congr readings

/-- Mirrored paths spell nothing else. -/
theorem Mirrored.spellings_subset {paths others : List Phrase} (mirrored : Mirrored paths others) :
    paths.map Phrase.spelling ⊆ others.map Phrase.spelling := by
  -- The twin of a path has its spelling.
  intro words given
  obtain ⟨path, listed, rfl⟩ := List.mem_map.mp given
  obtain ⟨twin, found, alike⟩ := mirrored path listed
  exact List.mem_map.mpr ⟨twin, found, alike.spelling_eq⟩

/-- Mirrored paths state nothing else. -/
theorem Mirrored.exists_stated {paths others : List Phrase} (mirrored : Mirrored paths others)
    {statement : Category × Predicate} (stated : ∃ path ∈ paths, statement ∈ path.statements) :
    ∃ path ∈ others, statement ∈ path.statements := by
  -- The twin of a path makes its statements.
  obtain ⟨path, listed, stated⟩ := stated
  obtain ⟨twin, found, alike⟩ := mirrored path listed
  exact ⟨twin, found, alike.statements_eq ▸ stated⟩

namespace Findings

variable {findings others : Findings} {paths paths' : List Phrase}

/-- Two findings tell the same, although the order of the phrases and the tiles that they were read
from may differ. -/
structure Agrees (findings others : Findings) : Prop where
  spellings : (others.phrases.map Phrase.spelling).Perm (findings.phrases.map Phrase.spelling)
  rulebook : Rulebook.ofPhrases others.phrases = Rulebook.ofPhrases findings.phrases
  /-- As long as there are identifiers for all phrases, the marks belong to the same words. -/
  marked : findings.phrases.length ≤ UInt32.size → ∀ cell words direction role,
    others.Marked cell words direction role ↔ findings.Marked cell words direction role

/-- Findings that are collected from mirrored sentences agree. -/
theorem Collects.agrees (collects : findings.Collects paths) (collects' : others.Collects paths')
    {shown shown' : PlacedWord → Prop} {config : Config}
    (sentences : ∀ path ∈ paths, Sentence.IsSentence shown config path.words)
    (sentences' : ∀ path ∈ paths', Sentence.IsSentence shown' config path.words)
    (there : Mirrored paths paths') (back : Mirrored paths' paths) : findings.Agrees others := by
  -- Spellings, statements and marks are those of the paths, and these are mirrored both ways.
  have spellings : (others.phrases.map Phrase.spelling).Perm
      (findings.phrases.map Phrase.spelling) := by
    refine (List.perm_ext_iff_of_nodup collects'.distinct collects.distinct).mpr fun words => ?_
    rw [collects.mem_spellings_iff, collects'.mem_spellings_iff]
    exact ⟨fun listed => back.spellings_subset listed, fun listed => there.spellings_subset listed⟩
  refine ⟨spellings, Rulebook.ofStatements_congr fun statement => ?_,
    fun few cell words direction role => ?_⟩
  · rw [collects.mem_statements_iff sentences, collects'.mem_statements_iff sentences']
    exact ⟨back.exists_stated, there.exists_stated⟩
  · have lengths : others.phrases.length = findings.phrases.length := by
      simpa using spellings.length_eq
    rw [collects.marked_iff few, collects'.marked_iff (lengths ▸ few)]
    exact ⟨.of_mirrored back, .of_mirrored there⟩

end Findings

/-- A search of the world finds this, from these paths that survive. -/
structure World.Finds (world : World) (config : Config) (paths : List Phrase)
    (findings : Findings) : Prop where
  survived : world.board.paths config = .ok paths
  searched : world.search config = .ok findings
  collects : findings.Collects paths

namespace RuleReader

variable {reader : RuleReader} {paths others : List Phrase} {cell cell' : Cell}

/-- Mirrored paths start the news on one cell. -/
theorem StartsNews.cell_eq (there : Mirrored paths others) (back : Mirrored others paths)
    (starts : reader.StartsNews paths cell) (starts' : reader.StartsNews others cell') :
    cell = cell' := by
  have notAfter {paths others : List Phrase} {cell cell' : Cell} (there : Mirrored paths others)
      (starts : reader.StartsNews paths cell) (starts' : reader.StartsNews others cell') :
      cell' = cell ∨ cell'.ReadBefore cell := by
    obtain ⟨path, listed, lacks, begins⟩ := starts.starts
    obtain ⟨twin, found, alike⟩ := there path listed
    obtain ⟨start, begins', order⟩ := starts'.least twin found (alike.spelling_eq ▸ lacks)
    rw [alike.firstCell_eq, begins] at begins'
    cases begins'
    exact order
  -- Neither cell is read before the other.
  rcases notAfter there starts starts' with same | before
  · exact same.symm
  · rcases notAfter back starts' starts with same | after
    · exact same
    · exact Std.Antisymm.antisymm cell cell' after before

/-- A reader reports the same first new cell for mirrored paths. -/
theorem newPhraseCell_eq {world other : World} {config : Config} {findings found : Findings}
    {time time' : Duration} {reading reading' : Reading} (inStep : reader.InStep)
    (agrees : findings.Agrees found) (finds : world.Finds config paths findings)
    (finds' : other.Finds config others found)
    (there : Mirrored paths others) (back : Mirrored others paths)
    (reported : reader.readingOf world config findings time = .ok reading)
    (reported' : reader.readingOf other config found time' = .ok reading') :
    reading'.newPhraseCell = reading.newPhraseCell := by
  obtain ⟨_, same, news, first⟩ := newPhraseCell_spec inStep finds.searched reported
  cases finds.survived.symm.trans same
  obtain ⟨_, same, news', first'⟩ := newPhraseCell_spec inStep finds'.searched reported'
  cases finds'.survived.symm.trans same
  have lacks (findings : Findings) : (∃ phrase ∈ findings.phrases, reader.Lacks phrase.spelling) ↔
      ∃ words ∈ findings.phrases.map Phrase.spelling, reader.Lacks words := by
    simp
  -- Both report a cell or neither does, and the cells are where the news start.
  have both : reading'.newPhraseCell.isSome = true ↔ reading.newPhraseCell.isSome = true := by
    rw [news, news', lacks, lacks]
    simp only [agrees.spellings.mem_iff]
  cases here : reading.newPhraseCell with
  | none =>
    rw [here] at both
    exact Option.not_isSome_iff_eq_none.mp fun some => nomatch both.mp some
  | some cell =>
    rw [here] at both
    obtain ⟨cell', found⟩ := Option.isSome_iff_exists.mp (both.mpr rfl)
    rw [found, (first cell here).cell_eq there back (first' cell' found)]

end RuleReader

namespace World

variable {world other : World}

/-- The words of a world, each with the cell that it lies on. -/
def labels (world : World) : List (Word × Cell) :=
  -- In the order of identifiers, which the other arrangement need not share.
  world.entities.filterMap fun entity => entity.word.map (·, entity.position)

/-- A word lies on a cell when a live entity carries it there. -/
theorem mem_labels_iff {word : Word} {cell : Cell} : (word, cell) ∈ world.labels ↔
    ∃ entity ∈ world.entities, entity.word = some word ∧ entity.position = cell := by
  -- The list is filled from the live entities.
  simp [labels]

/-- The board of a consistent world shows whatever the world has a word for. -/
theorem Consistent.covers (consistent : world.Consistent) (consistent' : other.Consistent)
    (subset : other.labels ⊆ world.labels) : world.board.Covers other.board := by
  -- Whatever shows there is a label, so somebody here carries the word on the same cell.
  intro word shows
  obtain ⟨_, _, entity, found, here, carried⟩ := consistent'.board_shows_iff.mp shows
  have live := (find?_eq_some_iff.mp found).1
  obtain ⟨twin, live', carried', there⟩ :=
    mem_labels_iff.mp (subset (mem_labels_iff.mpr ⟨entity, live, carried, here⟩))
  refine ⟨⟨word.word, word.position, twin.id, word.part⟩, consistent.board_shows_iff.mpr ?_, rfl⟩
  exact ⟨there ▸ consistent.inside twin live',
    consistent.mem_stackAt_iff.mpr ⟨twin, live', rfl, there⟩, twin,
    find?_eq_some_iff.mpr ⟨live', rfl⟩, there, carried'⟩

/-- A fresh reader reads any consistent world. -/
theorem Consistent.exists_first_reading (consistent : world.Consistent) (config : Config)
    (elapsed : Duration) :
    ∃ reading after, RuleReader.initial.advance world config elapsed = .ok (reading, after) := by
  -- Its clock starts at zero, so no span of time is too long for it.
  have clock : RuleReader.initial.clock.add elapsed = .ok elapsed := by
    simp [Duration.add, Duration.ofNanoseconds?, RuleReader.initial, Duration.zero, elapsed.inRange]
  rcases RuleReader.initial.advance_total consistent config elapsed with ⟨⟨reading, after⟩, read⟩ |
    late
  · exact ⟨reading, after, read⟩
  · cases clock.symm.trans late

/-- The order in which word tiles were placed has no say in the rules: where two worlds have the
same words on the same cells, whoever carries them and whatever else stands there, a search finds
phrases that spell and state the same, from paths that pass the same cells in the same ways, and a
reader that has read nothing reports the same cell for the first new phrase. -/
theorem Reachable.search_arrangement (reachable : world.Reachable) (reachable' : other.Reachable)
    (same : world.labels.Perm other.labels) (config : Config) (elapsed : Duration) :
    ∃ paths others findings found reading reading' reader reader',
      world.Finds config paths findings ∧ other.Finds config others found ∧
        findings.Agrees found ∧
        (∀ cell words direction role,
          Passed others cell words direction role ↔ Passed paths cell words direction role) ∧
        RuleReader.initial.advance world config elapsed = .ok (reading, reader) ∧
        RuleReader.initial.advance other config elapsed = .ok (reading', reader') ∧
        reading'.newPhraseCell = reading.newPhraseCell := by
  -- Each board covers the other, so each surviving path of the one has a twin on the other.
  have covers := reachable.consistent.covers reachable'.consistent same.symm.subset
  have covers' := reachable'.consistent.covers reachable.consistent same.subset
  obtain ⟨paths, findings, survived, survives, searched, collects, _⟩ :=
    Board.search_spec reachable.consistent.single_board config
  obtain ⟨others, found, survived', survives', searched', collects', _⟩ :=
    Board.search_spec reachable'.consistent.single_board config
  have there : Mirrored paths others := fun path listed => by
    obtain ⟨twin, alike, kept⟩ := Board.exists_alike covers covers' ((survives path).mp listed)
    exact ⟨twin, (survives' twin).mpr kept, alike⟩
  have back : Mirrored others paths := fun path listed => by
    obtain ⟨twin, alike, kept⟩ := Board.exists_alike covers' covers ((survives' path).mp listed)
    exact ⟨twin, (survives twin).mpr kept, alike⟩
  -- Mirrored paths leave findings that tell the same.
  have agrees := collects.agrees collects'
    (fun path listed => ((survives path).mp listed).1.1.1)
    (fun path listed => ((survives' path).mp listed).1.1.1) there back
  -- The first reading of each world reads what has been found.
  obtain ⟨reading, reader, read⟩ := reachable.consistent.exists_first_reading config elapsed
  obtain ⟨reading', reader', read'⟩ := reachable'.consistent.exists_first_reading config elapsed
  have finds : world.Finds config paths findings := ⟨survived, searched, collects⟩
  have finds' : other.Finds config others found := ⟨survived', searched', collects'⟩
  refine ⟨paths, others, findings, found, reading, reading', reader, reader', finds, finds', agrees,
    fun cell words direction role => ⟨.of_mirrored back, .of_mirrored there⟩, read, read', ?_⟩
  obtain ⟨_, again, _, _, reported⟩ := RuleReader.advance_eq_of_stale rfl read
  cases Except.ok.inj (again.symm.trans searched)
  obtain ⟨_, again, _, _, reported'⟩ := RuleReader.advance_eq_of_stale rfl read'
  cases Except.ok.inj (again.symm.trans searched')
  exact RuleReader.newPhraseCell_eq RuleReader.inStep_initial agrees finds finds' there back
    reported reported'

/-- Two stacked subjects of one rule, placed in one order and in the opposite one: the phrases
change places, and the first new one is still on the same cell. -/
theorem search_arrangement_reversed : ∃ bare ids world ids' other findings found reading reading'
    reader reader', empty 3 1 = .ok bare ∧
      bare.createAll [.tile .rock ⟨0, 0⟩, .tile .wall ⟨0, 0⟩, .tile .is ⟨1, 0⟩,
        .tile .push ⟨2, 0⟩] = .ok (ids, world) ∧
      bare.createAll [.tile .push ⟨2, 0⟩, .tile .is ⟨1, 0⟩, .tile .wall ⟨0, 0⟩,
        .tile .rock ⟨0, 0⟩] = .ok (ids', other) ∧
      world.labels.Perm other.labels ∧
      world.search .standard = .ok findings ∧ other.search .standard = .ok found ∧
      findings.phrases.map Phrase.spelling = [[.rock, .is, .push], [.wall, .is, .push]] ∧
      found.phrases.map Phrase.spelling = [[.wall, .is, .push], [.rock, .is, .push]] ∧
      findings.Agrees found ∧
      RuleReader.initial.advance world .standard .zero = .ok (reading, reader) ∧
      RuleReader.initial.advance other .standard .zero = .ok (reading', reader') ∧
      reading'.newPhraseCell = reading.newPhraseCell ∧ reading.newPhraseCell = some ⟨0, 0⟩ := by
  -- Evaluated in one piece, so that both worlds are built only once.
  have known : (do
      let bare ← empty 3 1
      let one ← bare.createAll [.tile .rock ⟨0, 0⟩, .tile .wall ⟨0, 0⟩, .tile .is ⟨1, 0⟩,
        .tile .push ⟨2, 0⟩]
      let two ← bare.createAll [.tile .push ⟨2, 0⟩, .tile .is ⟨1, 0⟩, .tile .wall ⟨0, 0⟩,
        .tile .rock ⟨0, 0⟩]
      let findings ← one.2.search .standard
      let found ← two.2.search .standard
      let read ← RuleReader.initial.advance one.2 .standard .zero
      return (one.2.labels, two.2.labels, findings.phrases.map Phrase.spelling,
        found.phrases.map Phrase.spelling, read.1.newPhraseCell) : Except Error _) =
      .ok ([(.rock, ⟨0, 0⟩), (.wall, ⟨0, 0⟩), (.is, ⟨1, 0⟩), (.push, ⟨2, 0⟩)],
        [(.push, ⟨2, 0⟩), (.is, ⟨1, 0⟩), (.wall, ⟨0, 0⟩), (.rock, ⟨0, 0⟩)],
        [[.rock, .is, .push], [.wall, .is, .push]], [[.wall, .is, .push], [.rock, .is, .push]],
        some ⟨0, 0⟩) := by
    cbv
  obtain ⟨bare, built, known⟩ := bind_eq_ok_iff.mp known
  obtain ⟨⟨ids, world⟩, created, known⟩ := bind_eq_ok_iff.mp known
  obtain ⟨⟨ids', other⟩, created', known⟩ := bind_eq_ok_iff.mp known
  obtain ⟨findings, searched, known⟩ := bind_eq_ok_iff.mp known
  obtain ⟨found, searched', known⟩ := bind_eq_ok_iff.mp known
  obtain ⟨⟨reading, reader⟩, read, known⟩ := bind_eq_ok_iff.mp known
  simp only [Pure.pure, Except.pure, Except.ok.injEq, Prod.mk.injEq] at known
  obtain ⟨labels, labels', spelled, spelled', news⟩ := known
  have same : world.labels.Perm other.labels := by
    rw [labels, labels']
    decide
  obtain ⟨_, _, _, _, _, reading', _, reader', finds, finds', agrees, _, read', read'', cells⟩ :=
    ((Reachable.empty built).createAll created).search_arrangement
      ((Reachable.empty built).createAll created') same .standard .zero
  cases finds.searched.symm.trans searched
  cases finds'.searched.symm.trans searched'
  cases read'.symm.trans read
  exact ⟨bare, ids, world, ids', other, findings, found, reading, reading', reader, reader', built,
    created, created', same, searched, searched', spelled, spelled', agrees, read, read'', cells,
    news⟩

end World

end WordTiles
