import WordTiles.Proofs.Sentence.Found

/-! Sentences without their tiles: which words lie on which cells decides on what is read from a
board, and which entities carry the words does not. -/

namespace WordTiles

namespace PlacedWord

/-- The word as it shows, whoever carries it. -/
def face (word : PlacedWord) : PlacedWord :=
  -- All faces carry the same identifier, so that only the rest is compared.
  { word with entity := ⟨0⟩ }

/-- Words with one face are in one place. -/
theorem position_of_face {a b : PlacedWord} (same : a.face = b.face) : a.position = b.position := by
  -- The face keeps the place.
  have places := congrArg position same
  exact places

/-- A step leads from and to whatever carries the words. -/
theorem LeadsTo.congr {word next word' next' : PlacedWord} {direction : Direction}
    (leads : word.LeadsTo direction next) (one : word'.face = word.face)
    (two : next'.face = next.face) : word'.LeadsTo direction next' := by
  -- A step looks at the places of its two words only.
  unfold LeadsTo
  rw [position_of_face one, position_of_face two]
  exact leads

end PlacedWord

namespace Sentence

variable {shown shown' : PlacedWord → Prop} {config : Config}

/-- Whether words are joined does not depend on who carries them. -/
theorem joined_face_iff {part : SentencePart} {test : Word → Bool} {words : List PlacedWord} :
    Joined part test (words.map PlacedWord.face) ↔ Joined part test words := by
  -- Both blocks are taken apart together, a word and a conjunction at a time.
  constructor
  · intro joined
    generalize same : words.map PlacedWord.face = faces at joined
    induction joined generalizing words with
    | single inPart passes =>
      obtain ⟨word, rest, rfl, rfl, none⟩ := List.map_eq_cons_iff.mp same
      cases List.map_eq_nil_iff.mp none
      exact .single inPart passes
    | join inPart passes isJoint _ ih =>
      obtain ⟨word, _, rfl, rfl, later⟩ := List.map_eq_cons_iff.mp same
      obtain ⟨joint, rest, rfl, rfl, last⟩ := List.map_eq_cons_iff.mp later
      exact .join inPart passes isJoint (ih last)
  · intro joined
    induction joined with
    | single inPart passes => exact .single inPart passes
    | join inPart passes isJoint _ ih => exact .join inPart passes isJoint ih

/-- Whether a path winds does not depend on who carries its words. -/
theorem winds_face_iff {heading final : Direction} {words : List PlacedWord} :
    Winds config heading (words.map PlacedWord.face) final ↔ Winds config heading words final := by
  -- Both paths are taken apart together, turn by turn.
  constructor
  · intro winds
    generalize same : words.map PlacedWord.face = faces at winds
    induction winds generalizing words with
    | stay =>
      obtain ⟨word, rest, rfl, rfl, none⟩ := List.map_eq_cons_iff.mp same
      cases List.map_eq_nil_iff.mp none
      exact .stay
    | turn reached mayTurn left _ ih =>
      obtain ⟨word, _, rfl, rfl, later⟩ := List.map_eq_cons_iff.mp same
      obtain ⟨joint, _, rfl, rfl, last⟩ := List.map_eq_cons_iff.mp later
      obtain ⟨next, rest, rfl, rfl, _⟩ := List.map_eq_cons_iff.mp last
      exact .turn reached mayTurn left (ih last)
  · intro winds
    induction winds with
    | stay => exact .stay
    | turn reached mayTurn left _ ih => exact .turn reached mayTurn left ih

/-- Whether words follow a line does not depend on who carries them. -/
theorem isChain_face_iff {heading : Direction} {words : List PlacedWord} :
    (words.map PlacedWord.face).IsChain (PlacedWord.LeadsTo heading) ↔
      words.IsChain (PlacedWord.LeadsTo heading) :=
  -- The relation holds of two faces when it holds of the words.
  List.isChain_map _

/-- The parts of a sentence, whoever carries its words. -/
def Parse.face (parse : Parse) : Parse :=
  -- The relation and the directions belong to the sentence as a whole, and stay.
  { parse with
    subjects := parse.subjects.map PlacedWord.face
    verb := parse.verb.face
    predicates := parse.predicates.map PlacedWord.face }

/-- Whether the parts are those of a sentence does not depend on who carries its words, as long as
these show. -/
theorem Parse.valid_face_iff {parse : Parse} :
    parse.Valid shown config ↔
      (∀ word ∈ parse.words, shown word) ∧ parse.face.Valid (fun _ => True) config := by
  -- Apart from what shows, every condition is about words and places.
  have words : parse.face.words = parse.words.map PlacedWord.face := by
    simp [Parse.words, face]
  -- A place is a cell and a part, and the face keeps both.
  have places : parse.face.words.map PlacedWord.place = parse.words.map PlacedWord.place := by
    rw [words, List.map_map]
    rfl
  -- The straight stretch ends with the first predicate on both sides.
  have straight : parse.face.subjects ++ parse.face.verb :: parse.face.predicates.take 1 =
      (parse.subjects ++ parse.verb :: parse.predicates.take 1).map PlacedWord.face := by
    simp [face, List.map_take]
  constructor
  · intro valid
    exact ⟨valid.shown,
      { shown := fun _ _ => trivial
        distinct := places ▸ valid.distinct
        subjects := joined_face_iff.mpr valid.subjects
        chained := valid.chained.imp_right (List.length_map _).trans
        verbPart := valid.verbPart
        verbWord := valid.verbWord
        predicates := joined_face_iff.mpr valid.predicates
        straight := straight ▸ isChain_face_iff.mpr valid.straight
        winds := winds_face_iff.mpr valid.winds }⟩
  · rintro ⟨each, valid⟩
    exact
      { shown := each
        distinct := places ▸ valid.distinct
        subjects := joined_face_iff.mp valid.subjects
        chained := valid.chained.imp_right (List.length_map _).symm.trans
        verbPart := valid.verbPart
        verbWord := valid.verbWord
        predicates := joined_face_iff.mp valid.predicates
        straight := isChain_face_iff.mp (straight ▸ valid.straight)
        winds := winds_face_iff.mp valid.winds }

/-- Whether words are a sentence does not depend on who carries them, as long as they show. -/
theorem isSentence_face_iff {words : List PlacedWord} :
    IsSentence shown config words ↔ (∀ word ∈ words, shown word) ∧
      IsSentence (fun _ => True) config (words.map PlacedWord.face) := by
  -- The parts of the faces tell where the words are to be split.
  constructor
  · rintro ⟨parse, valid, rfl⟩
    obtain ⟨each, valid⟩ := Parse.valid_face_iff.mp valid
    exact ⟨each, parse.face, valid, by simp [Parse.words, Parse.face]⟩
  · rintro ⟨each, ⟨subjects, verb, predicates, relation, heading, final⟩, valid, same⟩
    obtain ⟨front, rest, rfl, rfl, same⟩ := List.map_eq_append_iff.mp same.symm
    obtain ⟨word, back, rfl, rfl, rfl⟩ := List.map_eq_cons_iff.mp same
    exact ⟨⟨front, word, back, relation, heading, final⟩,
      Parse.valid_face_iff.mpr ⟨each, valid⟩, rfl⟩

/-- Words with the same faces as those of a sentence are a sentence, if they show. -/
theorem IsSentence.congr {words others : List PlacedWord}
    (sentence : IsSentence shown config words)
    (same : others.map PlacedWord.face = words.map PlacedWord.face)
    (shows : ∀ word ∈ others, shown' word) : IsSentence shown' config others := by
  -- Being a sentence is a property of faces, apart from showing.
  rw [isSentence_face_iff] at sentence ⊢
  exact ⟨shows, same ▸ sentence.2⟩

/-- Reading backwards changes no face. -/
theorem map_face_backwards (words : List PlacedWord) :
    (backwards words).map PlacedWord.face = backwards (words.map PlacedWord.face) := by
  -- Reading backwards changes the parts and the order, and the face keeps the parts.
  simp only [backwards, List.map_reverse, List.map_map]
  rfl

/-- Words with the same faces start in the same direction. -/
theorem StartsForward.congr {words others : List PlacedWord} (starts : StartsForward words)
    (same : others.map PlacedWord.face = words.map PlacedWord.face) : StartsForward others := by
  -- Both lists have a first and a second word, with the same faces.
  obtain ⟨first, second, rest, heading, rfl, leads, forward⟩ := starts
  obtain ⟨first', _, rfl, one, later⟩ := List.map_eq_cons_iff.mp same
  obtain ⟨second', rest', rfl, two, _⟩ := List.map_eq_cons_iff.mp later
  exact ⟨first', second', rest', heading, rfl, leads.congr one two, forward⟩

end Sentence

/-- Whatever shows on the other board shows on this one as well, whoever carries it. -/
def Board.Covers (board other : Board) : Prop :=
  -- One direction only, so that each of two boards can cover the other.
  ∀ word, other.Shows word → ∃ twin, board.Shows twin ∧ twin.face = word.face

namespace Sentence

variable {board other : Board} {config : Config} {words others : List PlacedWord}

/-- What shows on one board shows on the other, word by word. -/
theorem exists_twins (covers : other.Covers board) (shows : ∀ word ∈ words, board.Shows word) :
    ∃ twins : List PlacedWord, (∀ twin ∈ twins, other.Shows twin) ∧
      twins.map PlacedWord.face = words.map PlacedWord.face := by
  -- The twins are chosen word by word.
  induction words with
  | nil => exact ⟨[], nofun, rfl⟩
  | cons first rest ih =>
    obtain ⟨twin, shown, same⟩ := covers first (shows first (by simp))
    obtain ⟨twins, each, alike⟩ := ih fun word member => shows word (by simp [member])
    exact ⟨twin :: twins, List.forall_mem_cons.mpr ⟨shown, each⟩, by simp [same, alike]⟩

/-- Whether anything continues a sentence does not depend on who carries the words. -/
theorem IsMaximal.congr (covers : board.Covers other) (maximal : IsMaximal board.Shows config words)
    (same : others.map PlacedWord.face = words.map PlacedWord.face)
    (shows : ∀ word ∈ others, other.Shows word) : IsMaximal other.Shows config others := by
  refine ⟨maximal.1.congr same shows, fun joint next longer => ?_⟩
  -- Whatever continues it here would continue it there.
  obtain ⟨joint', shown, alike⟩ := covers joint (longer.shows joint (by simp))
  obtain ⟨next', shown', alike'⟩ := covers next (longer.shows next (by simp))
  refine maximal.2 joint' next' (longer.congr (by simp [same, alike, alike']) fun word member => ?_)
  rcases List.mem_append.mp member with member | member
  · exact maximal.1.shows word member
  · rcases List.mem_pair.mp member with rfl | rfl
    · exact shown
    · exact shown'

/-- Whether anything more belongs to a sentence does not depend on who carries the words. -/
theorem IsOutermost.congr (covers : board.Covers other)
    (outer : IsOutermost board.Shows config words)
    (same : others.map PlacedWord.face = words.map PlacedWord.face)
    (shows : ∀ word ∈ others, other.Shows word) : IsOutermost other.Shows config others := by
  refine ⟨outer.1.congr covers same shows, fun subject joint longer => ?_⟩
  -- Whatever precedes it here would precede it there.
  obtain ⟨subject', shown, alike⟩ := covers subject (longer.shows subject (by simp))
  obtain ⟨joint', shown', alike'⟩ := covers joint (longer.shows joint (by simp))
  refine outer.2 subject' joint' (longer.congr (by simp [same, alike, alike']) ?_)
  exact List.forall_mem_cons.mpr ⟨shown, List.forall_mem_cons.mpr ⟨shown', outer.1.1.shows⟩⟩

/-- Whether a sentence prevails over its reversal does not depend on who carries the words. -/
theorem Prevails.congr (covers : board.Covers other) (prevails : Prevails board.Shows config words)
    (shown : ∀ word ∈ words, board.Shows word)
    (same : others.map PlacedWord.face = words.map PlacedWord.face)
    (shows : ∀ word ∈ others, other.Shows word) : Prevails other.Shows config others := by
  have turned {board : Board} {words : List PlacedWord} (shown : ∀ word ∈ words, board.Shows word) :
      ∀ word ∈ backwards words, board.Shows word := by
    simpa [backwards] using shown
  have alike : (backwards others).map PlacedWord.face = (backwards words).map PlacedWord.face := by
    rw [map_face_backwards, map_face_backwards, same]
  -- What is read backwards here is read backwards there, and beaten or not for the same reason.
  intro reversed
  obtain ⟨maximal, starts⟩ := prevails (reversed.congr alike.symm (turned shown))
  exact ⟨maximal.congr covers alike (turned shows), starts.congr same⟩

end Sentence

namespace Phrase

/-- The phrases show the same words in the same places. -/
def Alike (a b : Phrase) : Prop :=
  -- Who carries the words is left out, and their order matters.
  b.words.map PlacedWord.face = a.words.map PlacedWord.face

variable {a b : Phrase}

/-- Phrases that look alike spell the same. -/
theorem Alike.spelling_eq (alike : a.Alike b) : b.spelling = a.spelling := by
  -- The face keeps the word.
  have spelled := congrArg (List.map PlacedWord.word) alike
  rwa [List.map_map, List.map_map] at spelled

/-- Phrases that look alike start on the same cell. -/
theorem Alike.firstCell_eq (alike : a.Alike b) : b.firstCell = a.firstCell := by
  -- Either both phrases are without words, or they start with words of one face.
  obtain ⟨left⟩ := a
  obtain ⟨right⟩ := b
  cases left with
  | nil => cases List.map_eq_nil_iff.mp alike; rfl
  | cons first rest =>
    obtain ⟨word, rest', rfl, same, _⟩ := List.map_eq_cons_iff.mp alike
    exact congrArg Except.ok (PlacedWord.position_of_face same)

end Phrase

/-- Paths with the same faces pass in the same ways. -/
theorem Passes.congr {role role' : PathRole} {words others : List PlacedWord} {cell : Cell}
    {direction : Direction} (passes : Passes role words cell direction role')
    (same : others.map PlacedWord.face = words.map PlacedWord.face) :
    Passes role others cell direction role' := by
  -- By induction along the path, which starts with the same two places.
  induction passes generalizing others with
  | leaves leads =>
    obtain ⟨word, _, rfl, one, later⟩ := List.map_eq_cons_iff.mp same
    obtain ⟨next, rest, rfl, two, _⟩ := List.map_eq_cons_iff.mp later
    rw [← PlacedWord.position_of_face one]
    exact .leaves (leads.congr one two)
  | arrives leads =>
    obtain ⟨word, _, rfl, one, later⟩ := List.map_eq_cons_iff.mp same
    obtain ⟨next, _, rfl, two, none⟩ := List.map_eq_cons_iff.mp later
    cases List.map_eq_nil_iff.mp none
    rw [← PlacedWord.position_of_face two]
    exact .arrives (leads.congr one two)
  | later _ ih =>
    obtain ⟨word, _, rfl, _, later⟩ := List.map_eq_cons_iff.mp same
    have further := ih later
    obtain ⟨next, rest, rfl, _, _⟩ := List.map_eq_cons_iff.mp later
    exact .later further

/-- Boards that show the same, whoever carries the words, have the same survivors: to each path on
the one there is a path on the other that looks alike. -/
theorem Board.exists_alike {board other : Board} {config : Config} (covers : board.Covers other)
    (covered : other.Covers board) {path : Phrase}
    (survives : Sentence.IsOutermost board.Shows config path.words ∧
      Sentence.Prevails board.Shows config path.words) :
    ∃ twin : Phrase, path.Alike twin ∧ Sentence.IsOutermost other.Shows config twin.words ∧
      Sentence.Prevails other.Shows config twin.words := by
  -- A path of twins exists, and the two conditions carry over to it.
  obtain ⟨outer, prevails⟩ := survives
  have shown := outer.1.1.shows
  obtain ⟨twins, shows, same⟩ := Sentence.exists_twins covered shown
  exact ⟨⟨twins⟩, same, outer.congr covers same shows, prevails.congr covers shown same shows⟩

/-- A path that spells these words passes the cell in this direction and role. -/
def Passed (paths : List Phrase) (cell : Cell) (words : List Word) (direction : Direction)
    (role : PathRole) : Prop :=
  -- The words stand for the phrase, whose identifier depends on the order of the search.
  ∃ path ∈ paths, path.spelling = words ∧ Passes .start path.words cell direction role

namespace Findings

/-- A mark at a cell, by what the phrase that it belongs to spells. -/
def Marked (findings : Findings) (cell : Cell) (words : List Word) (direction : Direction)
    (role : PathRole) : Prop :=
  -- Here too the phrase is known by what it spells.
  ∃ mark ∈ findings.marks.marksAt cell, mark.direction = direction ∧ mark.role = role ∧
    ∃ phrase, findings.phrase? mark.phrase = some phrase ∧ phrase.spelling = words

/-- As long as there are identifiers for all phrases, each mark belongs to a phrase that spells what
a path spells that passes the cell in the same way. -/
theorem Collects.marked_iff {findings : Findings} {paths : List Phrase}
    (collects : findings.Collects paths) (few : findings.phrases.length ≤ UInt32.size)
    {cell : Cell} {words : List Word} {direction : Direction} {role : PathRole} :
    findings.Marked cell words direction role ↔ Passed paths cell words direction role := by
  -- The phrase with the identifier of a path is the one with its spelling.
  have spelled {path : Phrase} {id : PhraseId} (named : findings.idOf? path = some id) :
      ∃ phrase, findings.phrase? id = some phrase ∧ phrase.spelling = path.spelling := by
    obtain ⟨place, phrase, found, same, rfl⟩ := collects.idOf?_eq_some_iff.mp named
    obtain ⟨below, _⟩ := List.getElem?_eq_some_iff.mp found
    have number : (UInt32.ofNat place).toNat = place :=
      UInt32.toNat_ofNat_of_lt' (Nat.lt_of_lt_of_le below few)
    refine ⟨phrase, ?_, same⟩
    rw [phrase?, number, found]
  constructor
  · rintro ⟨mark, listed, rfl, rfl, phrase, found, rfl⟩
    -- A mark comes from a path, and bears the identifier of its spelling.
    obtain ⟨path, kept, named, passes⟩ :=
      (collects.mem_marks _).mp (MarkGrid.mem_marksAt_iff.mp listed)
    obtain ⟨other, again, same⟩ := spelled named
    cases found.symm.trans again
    exact ⟨path, kept, same.symm, passes⟩
  · rintro ⟨path, kept, rfl, passes⟩
    -- A path has a phrase of its spelling, whose identifier its mark bears.
    obtain ⟨phrase, listed, same⟩ := collects.spelled path kept
    have named : (findings.idOf? path).isSome = true := by
      rw [idOf?, Option.isSome_map, List.findIdx?_isSome]
      exact List.any_eq_true.mpr ⟨phrase, listed, beq_iff_eq.mpr same⟩
    obtain ⟨id, named⟩ := Option.isSome_iff_exists.mp named
    exact ⟨⟨id, direction, role⟩, MarkGrid.mem_marksAt_iff.mpr ((collects.mem_marks _).mpr
      ⟨path, kept, named, passes⟩), rfl, rfl, spelled named⟩

end Findings

end WordTiles
