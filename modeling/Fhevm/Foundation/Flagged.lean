import Mathlib

/-!
# A list with a flag for each member

A list of members is kept together with a flag for every possible member. Members are added one by
one if they are not flagged yet, and all of them are removed at once.

## Main definitions

* `Flagged` — the members are those with a flag, and the list has each of them once.
-/

namespace Foundation

variable {α : Type*} {flag : α → Bool} {members : List α}

structure Flagged (flag : α → Bool) (members : List α) : Prop where
  flag_iff : ∀ a, flag a = true ↔ a ∈ members
  nodup : members.Nodup

theorem flagged_nil : Flagged (fun _ : α => false) [] :=
  ⟨by simp, List.nodup_nil⟩

variable [DecidableEq α]

theorem Flagged.add (h : Flagged flag members) {a : α} (hnew : flag a = false) :
    Flagged (Function.update flag a true) (members ++ [a]) := by
  have hfresh : a ∉ members := by
    rw [← h.flag_iff, hnew]
    decide
  constructor
  · intro b
    rw [List.mem_append, List.mem_singleton, ← h.flag_iff, Function.update_apply]
    split_ifs with hb <;> simp [hb]
  · rw [← List.concat_eq_append]
    exact h.nodup.concat hfresh

/-- The flag of what is removed is reset, the other flags stay. -/
theorem foldl_unflag (removed : List α) (flag : α → Bool) (a : α) :
    removed.foldl (fun flag a => Function.update flag a false) flag a =
      (flag a && decide (a ∉ removed)) := by
  induction removed generalizing flag with
  | nil => simp
  | cons b removed ih =>
    rw [List.foldl_cons, ih, Function.update_apply]
    by_cases hb : a = b <;> simp [hb]

theorem Flagged.clear (h : Flagged flag members) :
    Flagged (members.foldl (fun flag a => Function.update flag a false) flag) [] := by
  refine ⟨fun a => ?_, List.nodup_nil⟩
  rw [foldl_unflag, Bool.and_eq_true, h.flag_iff, decide_eq_true_eq]
  simp

end Foundation
