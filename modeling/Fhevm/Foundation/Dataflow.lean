import Mathlib.Order.WellFounded
import Mathlib.Logic.Relation
import Mathlib.Tactic.Tauto

/-!
# Outcomes of a dataflow whose failures cut off dependents

A dataflow evaluates every node from the outcomes of the nodes it depends on.
An outcome may report a failure; a node that depends on a reporting node of
another task is not evaluated at all. The outcome of every node is determined,
and a coarser division into tasks evaluates more nodes.

## Main definitions

* `Dataflow` — dependences, a division into tasks, evaluation and reports.
* `Dataflow.outcome` — the outcome of every node, `none` when it is cut off.
* `Dataflow.Coarser.eq_outcome` — what a coarser division preserves.
-/

namespace Foundation

variable {V O : Type*}

structure Dataflow (V O : Type*) where
  /-- `dep d c`: the evaluation of `c` depends on the outcome of `d`. -/
  dep : V → V → Prop
  wellFounded : WellFounded dep
  /-- The nodes that are evaluated by the same task. -/
  same : V → V → Prop
  exec : V → (V → Option O) → O
  reports : O → Prop
  exec_congr : ∀ c f f', (∀ d, dep d c → f d = f' d) → exec c f = exec c f'

namespace Dataflow

variable (F : Dataflow V O)

/-- Everything that a node transitively depends on. -/
abbrev Before (d c : V) : Prop := Relation.TransGen F.dep d c

/-- A node of another task that `c` depends on reports a failure. -/
def CutOff (out : V → Option O) (c : V) : Prop :=
  ∃ d o, ¬ F.same d c ∧ F.Before d c ∧ out d = some o ∧ F.reports o

open Classical in
/-- The outcome of every node, by recursion on the dependences. -/
noncomputable def outcome : V → Option O :=
  F.wellFounded.transGen.fix fun c out =>
    if ∃ d, ∃ h : F.Before d c, ¬ F.same d c ∧ ∃ o, out d h = some o ∧ F.reports o then none
    else some (F.exec c fun d => if h : F.Before d c then out d h else none)

theorem outcome_eq_none {c : V} (h : F.CutOff F.outcome c) : F.outcome c = none := by
  obtain ⟨d, o, hsame, hbefore, hout, hrep⟩ := h
  rw [outcome, WellFounded.fix_eq, if_pos ⟨d, hbefore, hsame, o, hout, hrep⟩]

theorem outcome_eq_some {c : V} (h : ¬ F.CutOff F.outcome c) :
    F.outcome c = some (F.exec c F.outcome) := by
  have hnot : ¬ ∃ d, ∃ _ : F.Before d c, ¬ F.same d c ∧
      ∃ o, F.outcome d = some o ∧ F.reports o := by
    rintro ⟨d, hbefore, hsame, o, hout, hrep⟩
    exact h ⟨d, o, hsame, hbefore, hout, hrep⟩
  conv_lhs => rw [outcome, WellFounded.fix_eq]
  refine (if_neg hnot).trans (congrArg some (F.exec_congr c _ _ fun d hd => ?_))
  have hbefore : F.Before d c := .single hd
  rw [dif_pos hbefore]
  rfl

theorem outcome_isSome_iff {c : V} : (F.outcome c).isSome ↔ ¬ F.CutOff F.outcome c := by
  constructor
  · intro h hcut
    simp [F.outcome_eq_none hcut] at h
  · intro h
    simp [F.outcome_eq_some h]

theorem exec_of_outcome {c : V} {o : O} (h : F.outcome c = some o) :
    o = F.exec c F.outcome := by
  have hsome : (F.outcome c).isSome := by simp [h]
  rw [F.outcome_eq_some (F.outcome_isSome_iff.mp hsome)] at h
  exact (Option.some.inj h).symm

/-- A node is failed when it is, or depends on, a node that reports a failure. -/
def Failed (c : V) : Prop :=
  ∃ d o, Relation.ReflTransGen F.dep d c ∧ F.outcome d = some o ∧ F.reports o

/-- A division into tasks is convex when a dependence that leaves a task never
comes back to it. -/
def Convex : Prop := ∀ a b c, F.Before a b → F.Before b c → F.same a c → F.same a b

variable {F}

/-- Cutting off is hereditary. -/
theorem CutOff.of_before (hconv : F.Convex) {b c : V} (h : F.CutOff F.outcome b)
    (hbc : F.Before b c) : F.CutOff F.outcome c := by
  obtain ⟨d, o, hsame, hdb, hout, hrep⟩ := h
  exact ⟨d, o, fun hsame' => hsame (hconv d b c hdb hbc hsame'), hdb.trans hbc, hout, hrep⟩

theorem CutOff.failed {c : V} (h : F.CutOff F.outcome c) : F.Failed c := by
  obtain ⟨d, o, -, hbefore, hout, hrep⟩ := h
  exact ⟨d, o, hbefore.to_reflTransGen, hout, hrep⟩

theorem Failed.of_before {b c : V} (h : F.Failed b) (hbc : Relation.ReflTransGen F.dep b c) :
    F.Failed c := by
  obtain ⟨d, o, hdb, hout, hrep⟩ := h
  exact ⟨d, o, hdb.trans hbc, hout, hrep⟩

/-! ## Comparing two divisions -/

/-- `F'` is the dataflow `F` with a coarser division into tasks. -/
structure Coarser (F F' : Dataflow V O) : Prop where
  dep : F'.dep = F.dep
  exec : F'.exec = F.exec
  reports : F'.reports = F.reports
  same : ∀ a b, F.same a b → F'.same a b

variable {F' : Dataflow V O}

theorem Coarser.before (h : F.Coarser F') : F'.Before = F.Before := by
  funext a b
  rw [Before, Before, h.dep]

/-- What the finer division evaluates, the coarser one evaluates with the same outcome. -/
theorem Coarser.eq_outcome (h : F.Coarser F') (hconv : F.Convex) (c : V)
    (hc : ¬ F.CutOff F.outcome c) : F'.outcome c = F.outcome c := by
  induction c using F.wellFounded.transGen.induction with
  | _ c ih =>
    have hnot : ¬ F'.CutOff F'.outcome c := by
      rintro ⟨d, o, hsame, hbefore, hout, hrep⟩
      rw [h.before] at hbefore
      rw [h.reports] at hrep
      by_cases hd : F.CutOff F.outcome d
      · exact hc (hd.of_before hconv hbefore)
      · rw [ih d hbefore hd] at hout
        exact hc ⟨d, o, fun hs => hsame (h.same d c hs), hbefore, hout, hrep⟩
    rw [F'.outcome_eq_some hnot, F.outcome_eq_some hc, h.exec]
    refine congrArg some (F.exec_congr c _ _ fun d hd => ?_)
    have hbefore : F.Before d c := .single hd
    exact ih d hbefore fun hcut => hc (hcut.of_before hconv hbefore)

theorem Coarser.outcome_eq_some (h : F.Coarser F') (hconv : F.Convex) {c : V} {o : O}
    (hc : F.outcome c = some o) : F'.outcome c = some o := by
  have hsome : (F.outcome c).isSome := by simp [hc]
  rw [h.eq_outcome hconv c (F.outcome_isSome_iff.mp hsome), hc]

/-- Failures do not depend on the division. -/
theorem Coarser.failed_iff (h : F.Coarser F') (hconv : F.Convex) {c : V} :
    F'.Failed c ↔ F.Failed c := by
  constructor
  · rintro ⟨d, o, hdc, hout, hrep⟩
    rw [h.dep] at hdc
    rw [h.reports] at hrep
    by_cases hcut : F.CutOff F.outcome d
    · exact hcut.failed.of_before hdc
    · rw [h.eq_outcome hconv d hcut] at hout
      exact ⟨d, o, hdc, hout, hrep⟩
  · rintro ⟨d, o, hdc, hout, hrep⟩
    refine ⟨d, o, ?_, h.outcome_eq_some hconv hout, ?_⟩
    · rw [h.dep]
      exact hdc
    · rw [h.reports]
      exact hrep

end Dataflow

end Foundation
