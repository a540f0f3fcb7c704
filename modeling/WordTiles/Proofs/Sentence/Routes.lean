import WordTiles.Proofs.Rules.Rounds
import WordTiles.Proofs.Sentence.Choices
import WordTiles.Proofs.Sentence.Discovery
import WordTiles.Proofs.Sentence.Draining
import WordTiles.Proofs.Sentence.Found

/-! Routes: the agenda finds sentences in the order of the choices on the way to them, and this
order decides how phrases are numbered and where a new one is reported. -/

namespace WordTiles

namespace Draft

variable {board : Board} {config : Config} {draft : Draft}

/-- The routes by which a draft comes to a phrase: what is chosen at each fork on the way, until a
complete draft cannot be continued. -/
inductive Leads (board : Board) (config : Config) : Draft → List (List Nat) → Phrase → Prop where
  | stop {draft : Draft} (complete : draft.isComplete = true)
      (stuck : ∀ fork, ¬ Grows board config draft draft.phase fork) :
      Leads board config draft [] draft.phrase
  | fork {draft fork : Draft} {choice : List Nat} {route : List (List Nat)} {phrase : Phrase}
      (chooses : draft.Chooses board config choice fork)
      (leads : Leads board config fork route phrase) :
      Leads board config draft (choice :: route) phrase

/-- The readings of a draft on the grid are listed by the routes to them. -/
theorem listedBy_readings (inside : board.contains draft.last.position = true) :
    ListedBy (draft.readings board config) (draft.Leads board config) := by
  -- By induction along the forks, which are listed by the first choice of a route.
  induction draft using readings.induct board config with
  | case1 draft error failed =>
    obtain ⟨forks, built, _⟩ := forks_spec config inside
    -- The forks of a draft on the grid are found.
    rw [built] at failed
    cases failed
  | case2 draft forks built done =>
    obtain ⟨_, same, grows⟩ := forks_spec config inside
    cases built.symm.trans same
    rw [readings_eq built, if_pos done]
    simp only [Bool.and_eq_true, List.isEmpty_iff] at done
    obtain ⟨complete, rfl⟩ := done
    -- The draft is its own reading, and the empty route is the only one.
    have stuck (fork : Draft) : ¬ Grows board config draft draft.phase fork :=
      fun grown => List.not_mem_nil ((grows fork).mpr grown)
    refine ⟨[([], draft.phrase)], rfl, List.pairwise_singleton _ _, fun route phrase => ?_⟩
    rw [List.mem_singleton, Prod.mk.injEq]
    constructor
    · rintro ⟨rfl, rfl⟩
      exact .stop complete stuck
    · intro leads
      cases leads with
      | stop _ _ => exact ⟨rfl, rfl⟩
      | fork chooses _ => exact absurd chooses.grows (stuck _)
  | case3 draft forks built more ih =>
    obtain ⟨_, same, listed⟩ := exists_forks_listedBy config inside
    cases built.symm.trans same
    rw [readings_eq built, if_neg more]
    -- Each fork lies on the grid as well, and has its readings listed.
    have each : ∀ fork ∈ forks,
        ListedBy (fork.readings board config) (fork.Leads board config) := by
      intro fork member
      obtain ⟨choice, chooses⟩ := listed.mem_iff.mp member
      exact ih ⟨fork, member⟩ chooses.grows.shows.1
    refine (listed.flatMap each).congr fun route phrase => ?_
    constructor
    · rintro ⟨choice, rest, fork, rfl, chooses, leads⟩
      exact .fork chooses leads
    · intro leads
      cases leads with
      | stop complete stuck =>
        -- A draft that stops has no fork.
        refine absurd ?_ more
        rw [complete, Bool.true_and, List.isEmpty_iff, List.eq_nil_iff_forall_not_mem]
        intro fork member
        obtain ⟨choice, chooses⟩ := listed.mem_iff.mp member
        exact stuck fork chooses.grows
      | fork chooses leads => exact ⟨_, _, _, rfl, chooses, leads⟩

end Draft

namespace Agenda

open Draft

variable {board : Board} {config : Config}

/-- What is chosen with the start of a search: the row, the column, the layer of the noun, and the
direction. -/
inductive Begins (board : Board) : List Nat → Draft → Prop where
  | start {cell : Cell} {layer : Nat} {tile : Tile} {heading : Direction}
      (inside : board.contains cell = true) (lies : (board.tiles cell)[layer]? = some tile)
      (noun : tile.word.isNoun = true) :
      Begins board [cell.r.toNatClampNeg, cell.q.toNatClampNeg, layer, heading.rank]
        (.start cell tile heading)

/-- The starts of a search are listed by row, column, layer and direction. -/
theorem listedBy_starts (board : Board) : ListedBy (starts board) (Begins board) := by
  have range (extent : Int32) : ListedBy (List.range extent.toNatClampNeg) fun key value =>
      value ∈ List.range extent.toNatClampNeg ∧ key = value :=
    ListedBy.keys List.pairwise_lt_range
  have directions : ListedBy Direction.all fun key heading =>
      heading ∈ Direction.all ∧ key = heading.rank := ListedBy.keys (by decide)
  have listed := (range board.height).flatMap fun r _ => (range board.width).flatMap fun q _ =>
    ((ListedBy.places (board.tiles ⟨.ofNat q, .ofNat r⟩)).filter (·.word.isNoun)).flatMap
      fun tile _ => (directions.map (Draft.start ⟨.ofNat q, .ofNat r⟩ tile)).singleton
  have whole : starts board = (List.range board.height.toNatClampNeg).flatMap fun r =>
      (List.range board.width.toNatClampNeg).flatMap fun q =>
        ((board.tiles ⟨.ofNat q, .ofNat r⟩).filter (·.word.isNoun)).flatMap fun tile =>
          Direction.all.map (Draft.start ⟨.ofNat q, .ofNat r⟩ tile) := by
    simp only [starts, Grid.cells, List.flatMap_assoc, List.flatMap_map]
  have clamped {extent : Int32} {value : Nat} (below : value ∈ List.range extent.toNatClampNeg) :
      (Int32.ofNat value).toNatClampNeg = value := by
    rw [Int32.toNatClampNeg, (Grid.toInt_ofNat_of_lt (List.mem_range.mp below)).1,
      Int.toNat_natCast]
  rw [whole]
  refine listed.congr fun choice draft => ⟨?_, fun begins => ?_⟩
  · rintro ⟨row, _, _, rfl, ⟨inRows, rfl⟩, column, _, _, rfl, ⟨inColumns, rfl⟩, layer, _, tile, rfl,
      ⟨lies, noun⟩, _, rfl, heading, ⟨_, rfl⟩, rfl⟩
    have inside : board.contains ⟨.ofNat column, .ofNat row⟩ = true :=
      Grid.mem_cells_iff.mp
        (List.mem_flatMap.mpr ⟨row, inRows, List.mem_map.mpr ⟨column, inColumns, rfl⟩⟩)
    have begins : Begins board _ (.start _ tile heading) := .start inside lies noun
    rwa [clamped inRows, clamped inColumns] at begins
  · cases begins with
    | @start cell layer tile heading inside lies noun =>
      -- A cell of the grid lies in one of its rows and one of its columns.
      obtain ⟨row, inRows, inside⟩ := List.mem_flatMap.mp (Grid.mem_cells_iff.mpr inside)
      obtain ⟨column, inColumns, rfl⟩ := List.mem_map.mp inside
      refine ⟨_, _, row, rfl, ⟨inRows, clamped inRows⟩, _, _, column, rfl,
        ⟨inColumns, clamped inColumns⟩, layer, _, tile, rfl, ⟨lies, noun⟩, _, rfl, heading,
        ⟨heading.mem_all, rfl⟩, rfl⟩

/-- A sentence of a board is discovered by a route: by a start, and by the choices from there. -/
def Discovers (board : Board) (config : Config) (route : List (List Nat)) (phrase : Phrase) :
    Prop :=
  ∃ start rest draft, route = start :: rest ∧ Begins board start draft ∧
    draft.Leads board config rest phrase

/-- The sentences of a board are listed by the routes to them. -/
theorem listedBy_sentences (board : Board) (config : Config) :
    ListedBy ((starts board).flatMap (readings board config)) (Discovers board config) :=
  -- The routes of a start follow it, and starts are listed by themselves.
  (listedBy_starts board).flatMap fun _ begins => listedBy_readings (shows_of_mem_starts begins).1

/-- It makes no difference whether the drafts on an agenda are followed together or one by one. -/
theorem foldlM_drain (drafts : List Draft) (found : Array Phrase)
    (inside : ∀ draft ∈ drafts, board.contains draft.last.position = true) :
    drafts.foldlM (fun found draft => drain board config [draft] found) found =
      drain board config drafts found := by
  induction drafts generalizing found with
  | nil => simp [drain, Pure.pure, Except.pure]
  | cons draft rest ih =>
    -- What the first draft adds is there when the next one is followed.
    have first : ∀ other ∈ [draft], board.contains other.last.position = true :=
      List.forall_mem_singleton.mpr (inside draft (.head _))
    have later : ∀ other ∈ rest, board.contains other.last.position = true :=
      fun other member => inside other (.tail _ member)
    rw [List.foldlM_cons, drain_eq _ _ first]
    change rest.foldlM _ _ = _
    rw [ih _ later, drain_eq _ _ later, drain_eq _ _ inside]
    simp

end Agenda

namespace Findings

/-- A path is a new phrase unless its spelling is known. -/
theorem phrases_addPath {findings after : Findings} {path : Phrase}
    (added : findings.addPath path = .ok after) : after.phrases =
      if findings.spells path.spelling then findings.phrases else findings.phrases ++ [path] := by
  -- A path with a known spelling leaves marks only.
  unfold addPath at added
  split at added
  · rename_i place known
    obtain ⟨marks, _, added⟩ := bind_eq_ok_iff.mp added
    cases added
    obtain ⟨below, spelled, _⟩ := List.findIdx?_eq_some_iff_getElem.mp known
    have spells : findings.spells path.spelling = true :=
      List.any_eq_true.mpr ⟨_, List.getElem_mem below, spelled⟩
    rw [if_pos spells]
  · rename_i unknown
    obtain ⟨marks, _, added⟩ := bind_eq_ok_iff.mp added
    cases added
    rw [if_neg]
    simpa [spells] using unknown

/-- Of paths that are added one after the other, the first with each new spelling are phrases. -/
theorem phrases_foldlM_addPath {findings after : Findings} {paths : List Phrase}
    (folded : paths.foldlM addPath findings = .ok after) :
    after.phrases = findings.phrases ++
      (paths.filter fun path => !findings.spells path.spelling).eraseDupsBy
        (·.spelling == ·.spelling) := by
  induction paths generalizing findings with
  | nil =>
    cases folded
    simp
  | cons first rest ih =>
    rw [List.foldlM_cons] at folded
    obtain ⟨next, added, folded⟩ := bind_eq_ok_iff.mp folded
    rw [ih folded]
    have phrases := phrases_addPath added
    cases known : findings.spells first.spelling with
    | true =>
      rw [known, if_pos rfl] at phrases
      have same : next.spells = findings.spells := by
        unfold spells
        rw [phrases]
      rw [same, phrases, List.filter_cons_of_neg (by simp [known])]
    | false =>
      -- The later paths with this spelling count no longer.
      rw [known, if_neg Bool.false_ne_true] at phrases
      have more (words : List Word) :
          next.spells words = (findings.spells words || first.spelling == words) := by
        simp [spells, phrases]
      rw [phrases, List.filter_cons_of_pos (by simp [known]), List.eraseDupsBy_cons,
        List.filter_filter, List.append_assoc, List.singleton_append]
      refine congrArg (findings.phrases ++ first :: List.eraseDupsBy _ ·)
        (List.filter_congr fun path _ => ?_)
      rw [more, Bool.not_or, Bool.and_comm, BEq.comm]
      cases path.spelling == first.spelling <;> rfl

end Findings

/-- On every board the search succeeds, and the first of the surviving paths with each spelling are
its phrases, in this order. -/
theorem Board.exists_search (board : Board) (config : Config) :
    ∃ kept findings, board.paths config = .ok kept ∧
      kept.Sublist ((Agenda.starts board).flatMap (Draft.readings board config)) ∧
      board.search config = .ok findings ∧ findings.Collects kept ∧
      findings.phrases = kept.eraseDupsBy (·.spelling == ·.spelling) := by
  -- Whatever is found is a sentence, so its heading is found and its path can be marked.
  have sentences : ∀ path ∈ (Agenda.starts board).flatMap (Draft.readings board config),
      Sentence.IsSentence board.Shows config path.words :=
    fun path member => (Agenda.mem_readings_iff_isMaximal.mp member).1
  have nonempty : ∀ path ∈ (Agenda.starts board).flatMap (Draft.readings board config),
      path.words ≠ [] := fun path member => (sentences path member).ne_nil
  have tails := Prune.dropTails_eq nonempty
  have fewer : (Prune.dropTails _).Sublist _ := tails ▸ List.filter_sublist
  -- The candidates can be built, since every sentence has a heading.
  obtain ⟨field, built, phrases, _⟩ := Prune.candidates_spec fun path member => by
    obtain ⟨parse, valid, words⟩ := sentences path (fewer.subset member)
    exact ⟨_, valid.heading_eq words.symm⟩
  obtain ⟨kept, dropped⟩ : ∃ kept, Prune.dropReversals (Prune.dropTails _) = .ok kept :=
    ⟨_, Prune.dropReversals_eq (fun path member => nonempty path (fewer.subset member)) built
      phrases⟩
  have sublist := (Prune.dropReversals_sublist dropped).trans fewer
  have survived : board.paths config = .ok kept := by
    rw [paths, Agenda.sentences_eq]
    exact dropped
  -- Survivors are walks on the board, so that each of them can be added.
  obtain ⟨findings, folded, collects⟩ := Findings.collects_empty.foldlM_addPath
    fun path member => (sentences path (sublist.subset member)).walks
  refine ⟨kept, findings, survived, sublist, ?_, by rwa [List.nil_append] at collects, ?_⟩
  · rw [search_eq, survived]
    exact folded
  · rw [Findings.phrases_foldlM_addPath folded]
    simp [Findings.empty, Findings.spells]

/-- The cell that a reading reports is that of the first surviving path that the reader does not
know. -/
theorem RuleReader.newPhraseCell_eq_head {reader : RuleReader} {world : World} {config : Config}
    {findings : Findings} {time : Duration} {reading : Reading} {kept : List Phrase}
    (searched : world.search config = .ok findings) (survived : world.board.paths config = .ok kept)
    (reported : reader.readingOf world config findings time = .ok reading) :
    reading.newPhraseCell =
      (kept.find? (!reader.knows ·)).bind (·.words.head?.map (·.position)) := by
  -- The first unknown phrase is the first unknown surviving path.
  obtain ⟨_, same, _, first⟩ := Board.find?_search searched
  cases survived.symm.trans same
  have found := first fun words => !reader.known.contains words
  change findings.phrases.find? (!reader.knows ·) = kept.find? (!reader.knows ·) at found
  rw [← found]
  obtain ⟨_, _, _, ⟨none, nowhere⟩ | ⟨phrase, cell, new, starts, there⟩⟩ := readingOf_eq_ok reported
  · rw [none, nowhere]
    rfl
  · rw [new, there, Option.bind_some]
    unfold Phrase.firstCell at starts
    split at starts <;> cases starts
    rename_i words
    rw [words]
    rfl

namespace Agenda

open Draft

/-- The loop over the open drafts of an agenda is a recursion. Whatever drafts fit the board, it
adds their readings to what has been found, one draft after the other. A complete draft without a
fork is its own reading, and any other has the readings of its forks, which come in the order of their
choices: by layers from the bottom, and between the two layers of a conjunction and a predicate by
the turn, straight on first. So the sentences of a board come in the order of the routes to them: by
row, column, layer and direction of the start, and then by every choice. The first surviving path
with each spelling is a phrase, numbered in this order, and the first one that a reader does not
know tells where a new phrase is reported. -/
theorem drain_follows {board : Board} {drafts : List Draft}
    (fits : ∀ draft ∈ drafts, draft.Fits board) (config : Config) (found : Array Phrase) :
    drain board config drafts found =
      .ok (found ++ (drafts.flatMap (readings board config)).toArray) ∧
    (∀ draft : Draft, draft.Fits board → ∃ forks, draft.forks board config = .ok forks ∧
      ListedBy forks (draft.Chooses board config) ∧
      draft.readings board config =
        if draft.isComplete && forks.isEmpty then [draft.phrase]
        else forks.flatMap (readings board config)) ∧
    ∃ discovered kept findings, sentences board config = .ok discovered ∧
      (starts board).foldlM (fun found draft => drain board config [draft] found) #[] =
        .ok discovered.toArray ∧
      ListedBy discovered (Discovers board config) ∧
      board.paths config = .ok kept ∧ kept.Sublist discovered ∧
      board.search config = .ok findings ∧ findings.Collects kept ∧
      findings.phrases = kept.eraseDupsBy (·.spelling == ·.spelling) ∧
      ∀ (reader : RuleReader) (world : World) (time : Duration) (reading : Reading),
        world.board = board → reader.readingOf world config findings time = .ok reading →
        reading.newPhraseCell =
          (kept.find? (!reader.knows ·)).bind (·.words.head?.map (·.position)) := by
  -- The loop, one draft and the whole board are each taken by themselves.
  have onGrid : ∀ draft : Draft, draft.Fits board → board.contains draft.last.position = true :=
    fun draft fits => fits.inside draft.last (.head _)
  refine ⟨drain_eq drafts found fun draft member => onGrid draft (fits draft member), ?_, ?_⟩
  · intro draft fits
    obtain ⟨forks, built, listed⟩ := exists_forks_listedBy config (onGrid draft fits)
    exact ⟨forks, built, listed, readings_eq built⟩
  · obtain ⟨kept, findings, survived, sublist, searched, collects, first⟩ :=
      board.exists_search config
    refine ⟨_, kept, findings, sentences_eq, ?_, listedBy_sentences board config, survived, sublist,
      searched, collects, first, ?_⟩
    · have inside : ∀ draft ∈ starts board, board.contains draft.last.position = true :=
        fun draft begins => (shows_of_mem_starts begins).1
      rw [foldlM_drain _ _ inside, drain_eq _ _ inside, Array.empty_append]
    · rintro reader world time reading rfl reported
      exact RuleReader.newPhraseCell_eq_head searched survived reported

/-- A row that ends with two predicates on one cell. -/
def stackedRow : Board where
  -- Only the two predicates differ in layer.
  width := 3
  height := 1
  tiles := fun cell =>
    if cell = ⟨0, 0⟩ then [⟨⟨0⟩, .rock⟩]
    else if cell = ⟨1, 0⟩ then [⟨⟨1⟩, .is⟩]
    else if cell = ⟨2, 0⟩ then [⟨⟨2⟩, .stop⟩, ⟨⟨3⟩, .push⟩]
    else []

/-- The draft that follows the noun of that row has two readings, of which the one with the lower
predicate comes first. -/
theorem drain_follows_stackedRow : ∃ start : Draft, start.Fits stackedRow ∧
    drain stackedRow .standard [start] #[] = .ok (start.readings stackedRow .standard).toArray ∧
      (start.readings stackedRow .standard).map Phrase.spelling =
        [[.rock, .is, .stop], [.rock, .is, .push]] := by
  -- The only word of the first draft lies inside.
  have fits : (Draft.start ⟨0, 0⟩ ⟨⟨0⟩, .rock⟩ .east).Fits stackedRow := by
    refine ⟨fun word member => ?_, List.nodup_singleton _⟩
    rw [List.mem_singleton.mp member]
    decide
  have known : (do
      return (← drain stackedRow .standard [.start ⟨0, 0⟩ ⟨⟨0⟩, .rock⟩ .east] #[]).toList.map
        Phrase.spelling : Except Error _) =
      .ok [[.rock, .is, .stop], [.rock, .is, .push]] := by
    cbv
  obtain ⟨drained, _⟩ := drain_follows (List.forall_mem_singleton.mpr fits) .standard #[]
  rw [List.flatMap_singleton, Array.empty_append] at drained
  rw [drained] at known
  exact ⟨_, fits, drained, Except.ok.inj known⟩

end Agenda

end WordTiles
