import WordTiles.Sentence.Progress

/-! The agenda of open drafts, which is followed until no draft is left; that happens on every
board. -/

namespace WordTiles

/-- The open drafts on a board, the one to be followed next first. -/
structure Agenda (board : Board) (config : Config) where
  drafts : List Draft

namespace Agenda

variable {board : Board} {config : Config}

/-- One agenda follows another when the first draft has made way for its forks. -/
def Follows (after before : Agenda board config) : Prop :=
  -- The forks come first, so that a draft is followed to its end before the next one is.
  ∃ draft rest forks, before.drafts = draft :: rest ∧ draft.forks board config = .ok forks ∧
    after.drafts = forks ++ rest

/-- An agenda comes to an end if each of its first drafts only delays the end. -/
theorem acc_append {forks rest : List Draft}
    (delay : ∀ fork ∈ forks, ∀ rest, Acc (@Follows board config) ⟨rest⟩ →
      Acc (@Follows board config) ⟨fork :: rest⟩)
    (ends : Acc (@Follows board config) ⟨rest⟩) :
    Acc (@Follows board config) ⟨forks ++ rest⟩ := by
  -- The drafts are put in front one after the other.
  induction forks with
  | nil => exact ends
  | cons fork forks ih =>
    exact delay fork (by simp) _ (ih fun other member => delay other (by simp [member]))

/-- An agenda comes to an end if it does without its first draft, whatever room that draft has. -/
theorem acc_cons (room : Nat) {draft : Draft} (bounded : draft.room board ≤ room)
    {rest : List Draft} (ends : Acc (@Follows board config) ⟨rest⟩) :
    Acc (@Follows board config) ⟨draft :: rest⟩ := by
  -- Forks have less room, so by induction each of them only delays the end.
  induction room generalizing draft rest with
  | zero =>
    refine .intro _ fun ⟨after⟩ ⟨_, _, forks, same, built, result⟩ => ?_
    cases same
    cases result
    refine acc_append (fun fork member => ?_) ends
    have less := (Draft.forks_continue built member).room_lt
    omega
  | succ room ih =>
    refine .intro _ fun ⟨after⟩ ⟨_, _, forks, same, built, result⟩ => ?_
    cases same
    cases result
    refine acc_append (fun fork member rest ends => ih ?_ ends) ends
    have less := (Draft.forks_continue built member).room_lt
    omega

/-- Every agenda comes to an end. -/
theorem follows_wellFounded : WellFounded (@Follows board config) := by
  -- The empty agenda is at its end, and each draft in front only delays it.
  refine ⟨fun ⟨drafts⟩ => ?_⟩
  induction drafts with
  | nil => exact .intro _ fun _ ⟨_, _, _, same, _⟩ => nomatch same
  | cons draft rest ih => exact acc_cons _ (Nat.le_refl _) ih

instance : WellFoundedRelation (Agenda board config) := ⟨Follows, follows_wellFounded⟩

/-- Follows every draft of an agenda to its end, and adds each sentence that cannot be continued to
the sentences found before. -/
def drain (board : Board) (config : Config) (drafts : List Draft) (found : Array Phrase) :
    Except Error (Array Phrase) :=
  match drafts with
  | [] => .ok found
  | draft :: rest =>
    match _ : draft.forks board config with
    -- A fault ends the search, whatever has been found.
    | .error error => .error error
    | .ok forks =>
      -- What can go on is not listed, since what it becomes will be.
      drain board config (forks ++ rest)
        (if draft.isComplete && forks.isEmpty then found.push draft.phrase else found)
termination_by (⟨drafts⟩ : Agenda board config)
decreasing_by exact ⟨draft, rest, forks, rfl, ‹_›, rfl⟩

/-- The drafts with which a search begins: from every noun of the board, row by row and bottom layer
first, in each direction. -/
def starts (board : Board) : List Draft :=
  -- Words of another kind cannot begin a sentence.
  board.cells.flatMap fun cell =>
    ((board.tiles cell).filter (·.word.isNoun)).flatMap fun tile =>
      Direction.all.map (Draft.start cell tile)

/-- Every sentence of the board that cannot be continued, in the order of discovery. -/
def sentences (board : Board) (config : Config) : Except Error (List Phrase) := do
  -- The search is depth first, and so the order of discovery is that of the choices.
  return (← drain board config (starts board) #[]).toList

end Agenda

end WordTiles
