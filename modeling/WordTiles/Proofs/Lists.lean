import Mathlib.Data.List.Nodup

/-! Facts about lists as such: how they split, and what they keep when entries are left out. -/

namespace WordTiles

/-- A list in which only one member passes a test is split in one way only at a member that
passes. -/
theorem split_unique {α : Type} {test : α → Bool} {before before' after after' : List α}
    {middle middle' : α} (same : before ++ middle :: after = before' ++ middle' :: after')
    (free : ∀ x ∈ before, test x = false) (free' : ∀ x ∈ after, test x = false)
    (hit : test middle' = true) : before = before' ∧ middle = middle' ∧ after = after' := by
  -- The two lists before the member are followed together.
  induction before generalizing before' with
  | nil =>
    cases before' with
    | nil => simpa using same
    | cons first rest =>
      simp only [List.nil_append, List.cons_append, List.cons.injEq] at same
      have clash := free' middle' (by simp [same.2])
      rw [hit] at clash
      cases clash
  | cons first rest ih =>
    cases before' with
    | nil =>
      simp only [List.nil_append, List.cons_append, List.cons.injEq] at same
      have clash := free first (by simp)
      rw [same.1, hit] at clash
      cases clash
    | cons first' rest' =>
      simp only [List.cons_append, List.cons.injEq] at same
      obtain ⟨rfl, same⟩ := same
      obtain ⟨rfl, rest⟩ := ih same (fun x member => free x (by simp [member]))
      exact ⟨rfl, rest⟩

/-- Entries that yield nothing may be left out. -/
theorem flatMap_filterMap {α β γ : Type} {list : List α} {keep : α → Option β}
    {yield : β → List γ} {whole : α → List γ} (kept : ∀ x y, keep x = some y → whole x = yield y)
    (dropped : ∀ x, keep x = none → whole x = []) :
    (list.filterMap keep).flatMap yield = list.flatMap whole := by
  -- Entry by entry, whether it is kept or not.
  induction list with
  | nil => rfl
  | cons first rest ih =>
    rw [List.filterMap_cons, List.flatMap_cons]
    cases found : keep first with
    | none => rw [dropped first found, List.nil_append, ih]
    | some value => rw [kept first value found, List.flatMap_cons, ih]

/-- No list keeps a duplicate when its duplicates are erased. -/
theorem nodup_eraseDups {α : Type} [BEq α] [LawfulBEq α] (list : List α) :
    list.eraseDups.Nodup := by
  -- By induction on the length, since what follows the head is filtered first.
  induction length : list.length using Nat.strongRecOn generalizing list with
  | _ length ih =>
    cases list with
    | nil => simp
    | cons head tail =>
      rw [List.eraseDups_cons, List.nodup_cons, List.mem_eraseDups, List.mem_filter]
      refine ⟨fun member => by simp at member, ih _ ?_ _ rfl⟩
      rw [← length, List.length_cons]
      exact Nat.lt_succ_of_le (List.length_filter_le _ _)

end WordTiles
