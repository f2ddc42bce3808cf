import Mathlib

/-!
# Systems and their runs

A system makes a step on an input, or the input is not possible. Runs are restricted by what their
environment allows at each state.

## Main definitions

* `System` — the initial state and the step function.
* `System.Run` — the inputs of a run, newest first, and the state that they lead to.
* `System.Took` — an input of a run, and the state in which it was made.
* `System.replay` — the state after given inputs.
* `System.Run.invariant` — what holds at the start and is kept by steps holds always.
* `runs` — the maximal parts of a list with one key.
* `pairwise_runs_iff` — the keys of the runs increase just if the list is in order.
* `filter_of_mem_runs` — a run of an ordered list is all that has its key.
* `filter_mergeSort` — a sort leaves the elements with one key in their order.
-/

namespace Foundation

variable {σ ι : Type*}

structure System (σ ι : Type*) where
  init : σ
  step : σ → ι → Option σ

namespace System

variable (S : System σ ι) (allowed : σ → ι → Prop)

inductive Run : List ι → σ → Prop
  | start : Run [] S.init
  | step {past : List ι} {i : ι} {s s' : σ} :
      Run past s → allowed s i → S.step s i = some s' → Run (i :: past) s'

/-- An input of a run, and the state in which it was made. -/
def Took (past : List ι) (s : σ) (i : ι) : Prop :=
  ∃ older, i :: older <:+ past ∧ S.Run allowed older s

/-- The state after inputs that are allowed, newest first. -/
def replay [DecidableRel allowed] : List ι → Option σ
  | [] => some S.init
  | i :: past => (replay past).bind fun s => if allowed s i then S.step s i else none

variable {S allowed}

@[simp] theorem not_took_nil {s : σ} {i : ι} : ¬ S.Took allowed [] s i := by
  simp [Took]

theorem run_of_replay [DecidableRel allowed] {past : List ι} {s : σ}
    (h : S.replay allowed past = some s) : S.Run allowed past s := by
  induction past generalizing s with
  | nil =>
    obtain rfl := Option.some.inj h
    exact .start
  | cons i past ih =>
    obtain ⟨t, ht, hstep⟩ := Option.bind_eq_some_iff.mp h
    split_ifs at hstep with hallowed
    exact .step (ih ht) hallowed hstep

namespace Run

variable {past : List ι} {s : σ}

theorem mono {allowed' : σ → ι → Prop} (h : S.Run allowed past s)
    (hallowed : ∀ s i, allowed s i → allowed' s i) : S.Run allowed' past s := by
  induction h with
  | start => exact .start
  | step _ hi hstep ih => exact .step ih (hallowed _ _ hi) hstep

/-- Another condition that the inputs of the run meet wherever they meet the first one. -/
theorem mono_of_mem {allowed' : σ → ι → Prop} (h : S.Run allowed past s)
    (hallowed : ∀ i ∈ past, ∀ s, allowed s i → allowed' s i) : S.Run allowed' past s := by
  induction h with
  | start => exact .start
  | step _ hi hstep ih =>
    exact .step (ih fun i hmem => hallowed i (List.mem_cons_of_mem _ hmem))
      (hallowed _ List.mem_cons_self _ hi) hstep

theorem eq {s' : σ} (h : S.Run allowed past s) (h' : S.Run allowed past s') : s = s' := by
  induction h generalizing s' with
  | start =>
    cases h'
    rfl
  | step _ _ hstep ih =>
    cases h' with
    | step hrun' _ hstep' =>
      obtain rfl := ih hrun'
      exact Option.some.inj (hstep.symm.trans hstep')

/-- The inputs of a run that makes a step are those so far, and the one of the step. -/
theorem took_cons {i j : ι} {t : σ} (h : S.Run allowed past s) :
    S.Took allowed (i :: past) t j ↔ S.Took allowed past t j ∨ (t = s ∧ j = i) := by
  constructor
  · rintro ⟨older, hsuffix, hrun⟩
    obtain heq | hsuffix := List.suffix_cons_iff.mp hsuffix
    · obtain ⟨rfl, rfl⟩ := List.cons.inj heq
      exact .inr ⟨hrun.eq h, rfl⟩
    · exact .inl ⟨older, hsuffix, hrun⟩
  · rintro (⟨older, hsuffix, hrun⟩ | ⟨rfl, rfl⟩)
    · exact ⟨older, hsuffix.trans (List.suffix_cons _ _), hrun⟩
    · exact ⟨past, List.suffix_refl _, h⟩

theorem exists_took_cons {i : ι} (h : S.Run allowed past s) {Q : σ → ι → Prop} :
    (∃ t j, S.Took allowed (i :: past) t j ∧ Q t j) ↔
      (∃ t j, S.Took allowed past t j ∧ Q t j) ∨ Q s i := by
  simp only [h.took_cons]
  constructor
  · rintro ⟨t, j, htook | ⟨rfl, rfl⟩, hQ⟩
    · exact .inl ⟨t, j, htook, hQ⟩
    · exact .inr hQ
  · rintro (⟨t, j, htook, hQ⟩ | hQ)
    · exact ⟨t, j, .inl htook, hQ⟩
    · exact ⟨s, i, .inr ⟨rfl, rfl⟩, hQ⟩

theorem forall_took_cons {i : ι} (h : S.Run allowed past s) {Q : σ → ι → Prop} :
    (∀ t j, S.Took allowed (i :: past) t j → Q t j) ↔
      (∀ t j, S.Took allowed past t j → Q t j) ∧ Q s i := by
  simp only [h.took_cons]
  constructor
  · exact fun hall => ⟨fun t j htook => hall t j (.inl htook), hall s i (.inr ⟨rfl, rfl⟩)⟩
  · rintro ⟨hall, hlast⟩ t j (htook | ⟨rfl, rfl⟩)
    · exact hall t j htook
    · exact hlast

/-- A property of states and of the inputs so far that all steps keep. -/
theorem invariant {P : List ι → σ → Prop} (h : S.Run allowed past s) (hinit : P [] S.init)
    (hstep : ∀ past i s s', S.Run allowed past s → P past s → allowed s i → S.step s i = some s' →
      P (i :: past) s') : P past s := by
  induction h with
  | start => exact hinit
  | step hrun hi hs ih => exact hstep _ _ _ _ hrun ih hi hs

end Run

end System

end Foundation

/-! ## Runs of equal keys

A list is split wherever the key of its elements changes. If the keys are in order, those of the
runs increase, and each run has all the elements with its key. A stable sort puts the keys in order
and leaves the elements with one key in theirs. -/

namespace Foundation

variable {α κ : Type*} [LinearOrder κ] (key : α → κ)

def runs (l : List α) : List (List α) := l.splitBy fun a b => decide (key a = key b)

/-- All keys of one list are below all those of the other. -/
def KeysBelow (run run' : List α) : Prop := ∀ a ∈ run, ∀ b ∈ run', key a < key b

section Runs

variable {key} {l run : List α}

@[simp] theorem flatten_runs (l : List α) : (runs key l).flatten = l := List.flatten_splitBy _ _

theorem ne_nil_of_mem_runs (h : run ∈ runs key l) : run ≠ [] := List.ne_nil_of_mem_splitBy h

theorem runs_of_const (hl : l ≠ []) (h : ∀ a ∈ l, ∀ b ∈ l, key a = key b) : runs key l = [l] := by
  apply List.splitBy_of_isChain hl
  apply List.Pairwise.isChain
  exact List.pairwise_of_forall_mem_list fun a ha b hb => decide_eq_true (h a ha b hb)

/-- The list is split where the key changes. -/
theorem runs_append {l' : List α} (h : ∀ a ∈ l.getLast?, ∀ b ∈ l'.head?, key a ≠ key b) :
    runs key (l ++ l') = runs key l ++ runs key l' :=
  List.splitBy_append fun a ha b hb => decide_eq_false (h a ha b hb)

theorem key_eq_of_mem_runs (h : run ∈ runs key l) {a b : α} (ha : a ∈ run) (hb : b ∈ run) :
    key a = key b := by
  have hchain : run.IsChain fun a b => key a = key b :=
    (List.isChain_of_mem_splitBy h).imp fun a b => of_decide_eq_true
  have : IsTrans α fun a b => key a = key b := ⟨fun _ _ _ => Eq.trans⟩
  have : Std.Symm fun a b => key a = key b := ⟨fun _ _ => Eq.symm⟩
  apply List.Pairwise.forall_of_forall _ (List.isChain_iff_pairwise.mp hchain) ha hb
  exact fun _ _ => rfl

/-- The keys of neighbours differ. -/
theorem isChain_runs (l : List α) :
    (runs key l).IsChain fun run run' => ∀ a ∈ run, ∀ b ∈ run', key a ≠ key b := by
  apply List.IsChain.imp_of_mem_imp _ (List.isChain_getLast_head_splitBy _ l)
  rintro run run' hrun hrun' ⟨hne, hne', hlast⟩ a ha b hb heq
  have hlast := of_decide_eq_false hlast
  rw [key_eq_of_mem_runs hrun (List.getLast_mem hne) ha,
    key_eq_of_mem_runs hrun' (List.head_mem hne') hb] at hlast
  exact hlast heq

/-- Runs whose keys differ from those of their neighbours increase if they do not decrease. -/
theorem pairwise_keysBelow {L : List (List α)} (hne : ∀ run ∈ L, run ≠ [])
    (hle : L.Pairwise fun run run' => ∀ a ∈ run, ∀ b ∈ run', key a ≤ key b)
    (hchain : L.IsChain fun run run' => ∀ a ∈ run, ∀ b ∈ run', key a ≠ key b) :
    L.Pairwise (KeysBelow key) := by
  induction L with
  | nil => exact .nil
  | cons run L ih =>
    obtain ⟨hrun, hle⟩ := List.pairwise_cons.mp hle
    have htail := ih (fun r hr => hne r (List.mem_cons_of_mem _ hr)) hle hchain.tail
    refine List.pairwise_cons.mpr ⟨?_, htail⟩
    intro run' hrun' a ha b hb
    cases L with
    | nil => cases hrun'
    | cons next L =>
      have hnext : ∀ c ∈ next, key a < key c := fun c hc =>
        lt_of_le_of_ne (hrun next List.mem_cons_self a ha c hc)
          ((List.isChain_cons_cons.mp hchain).1 a ha c hc)
      obtain rfl | hrun' := List.mem_cons.mp hrun'
      · exact hnext b hb
      · -- a run further on is above the next one
        obtain ⟨c, hc⟩ := List.exists_mem_of_ne_nil next (hne next (by simp))
        exact (hnext c hc).trans ((List.pairwise_cons.mp htail).1 run' hrun' c hc b hb)

theorem pairwise_runs_iff :
    (runs key l).Pairwise (KeysBelow key) ↔ l.Pairwise fun a b => key a ≤ key b := by
  conv_rhs => rw [← @flatten_runs _ _ _ key l, List.pairwise_flatten]
  constructor
  · intro h
    refine ⟨fun run hrun => ?_, h.imp fun hbelow a ha b hb => (hbelow a ha b hb).le⟩
    exact List.pairwise_of_forall_mem_list fun a ha b hb => (key_eq_of_mem_runs hrun ha hb).le
  · rintro ⟨-, h⟩
    exact pairwise_keysBelow (fun _ => ne_nil_of_mem_runs) h (isChain_runs l)

theorem filter_flatten_of_mem {L : List (List α)} (hL : L.Pairwise (KeysBelow key))
    (hconst : ∀ run ∈ L, ∀ a ∈ run, ∀ b ∈ run, key a = key b) (hrun : run ∈ L) {a : α}
    (ha : a ∈ run) : L.flatten.filter (fun b => key b = key a) = run := by
  induction L with
  | nil => cases hrun
  | cons first L ih =>
    obtain ⟨hfirst, hL⟩ := List.pairwise_cons.mp hL
    have htail : ∀ run ∈ L, ∀ a ∈ run, ∀ b ∈ run, key a = key b :=
      fun run hrun => hconst run (List.mem_cons_of_mem _ hrun)
    rw [List.flatten_cons, List.filter_append]
    obtain rfl | hmem := List.mem_cons.mp hrun
    · have hself : run.filter (fun b => key b = key a) = run := by
        rw [List.filter_eq_self]
        exact fun b hb => decide_eq_true (hconst run hrun b hb a ha)
      have hrest : L.flatten.filter (fun b => key b = key a) = [] := by
        rw [List.filter_eq_nil_iff]
        intro b hb
        obtain ⟨run', hrun', hb⟩ := List.mem_flatten.mp hb
        simpa using (hfirst run' hrun' a ha b hb).ne'
      rw [hself, hrest, List.append_nil]
    · have hnone : first.filter (fun b => key b = key a) = [] := by
        rw [List.filter_eq_nil_iff]
        intro b hb
        simpa using (hfirst run hmem b hb a ha).ne
      rw [hnone, List.nil_append, ih hL htail hmem]

theorem filter_of_mem_runs (hl : l.Pairwise fun a b => key a ≤ key b) (h : run ∈ runs key l) {a : α}
    (ha : a ∈ run) : l.filter (fun b => key b = key a) = run := by
  conv_lhs => rw [← @flatten_runs _ _ _ key l]
  exact filter_flatten_of_mem (pairwise_runs_iff.mpr hl)
    (fun _ hrun _ ha _ hb => key_eq_of_mem_runs hrun ha hb) h ha

end Runs

/-! ## Sorting by the key -/

section Sorting

variable {key}

theorem keyLe_trans (a b c : α) (hab : decide (key a ≤ key b) = true)
    (hbc : decide (key b ≤ key c) = true) : decide (key a ≤ key c) = true := by
  simp only [decide_eq_true_eq] at *
  exact hab.trans hbc

theorem keyLe_total (a b : α) : (decide (key a ≤ key b) || decide (key b ≤ key a)) = true := by
  simpa using le_total (key a) (key b)

theorem pairwise_mergeSort_key (l : List α) :
    (l.mergeSort fun a b => decide (key a ≤ key b)).Pairwise fun a b => key a ≤ key b :=
  (List.pairwise_mergeSort keyLe_trans keyLe_total l).imp of_decide_eq_true

theorem filter_mergeSort (l : List α) (k : κ) :
    (l.mergeSort fun a b => decide (key a ≤ key b)).filter (fun a => key a = k) =
      l.filter fun a => key a = k := by
  have hconst : (l.filter fun a => key a = k).Pairwise fun a b => decide (key a ≤ key b) := by
    apply List.pairwise_of_forall_mem_list
    intro a ha b hb
    have ha := of_decide_eq_true (List.mem_filter.mp ha).2
    have hb := of_decide_eq_true (List.mem_filter.mp hb).2
    exact decide_eq_true (ha.trans hb.symm).le
  have hsub := (List.sublist_mergeSort keyLe_trans keyLe_total hconst
    List.filter_sublist).filter fun a => decide (key a = k)
  rw [List.filter_filter] at hsub
  simp only [Bool.and_self] at hsub
  have hlength := ((List.mergeSort_perm l fun a b => decide (key a ≤ key b)).filter
    fun a => decide (key a = k)).length_eq
  exact (hsub.eq_of_length hlength.symm).symm

end Sorting

end Foundation
