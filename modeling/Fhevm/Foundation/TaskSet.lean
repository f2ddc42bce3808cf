import Fhevm.Foundation.System

/-!
# Batches of tasks in a set

A loop prepares the items of a batch one after the other. Of some it makes tasks, which run
concurrently from then on; some it deals with at once; some it skips; and some make it return early.
After the loop the tasks are awaited in the order in which they end. The first error of one of them
is returned, and what is left in the set is dropped wherever it stands.

## Main definitions

* `Prepared` — what the loop makes of an item.
* `Batch` — the items, their effects on a shared state, and which tasks fail.
* `Batch.system` — the loop, the tasks and the end, in any interleaving.
* `Batch.Isolated` — no failure takes the effect of another item away.

## Main results

* `Batch.mem_log_of_isolated`, `Batch.exists_lost` — isolated batches are those whose effects are all
  there at the end of every run.
* `Batch.get_shared` — what the end of a run makes of a part of the shared state.
-/

namespace Foundation

/-- What the loop over a batch makes of an item. -/
inductive Prepared
  /-- A task in the set. -/
  | task
  | skip
  /-- It is dealt with in the loop. -/
  | now
  /-- The function is left, and the set is dropped. -/
  | abort
deriving DecidableEq, Repr

/-- How far the task of an item is. -/
inductive Stage
  | absent
  | spawned
  | sent
  | recorded
  | joined
deriving DecidableEq, Repr

def Stage.IsSent : Stage → Prop
  | .absent | .spawned => False
  | .sent | .recorded | .joined => True

structure Batch (σ : Type) where
  prepared : List Prepared
  effect : ℕ → σ → σ
  ok : ℕ → Bool

namespace Batch

variable {σ : Type}

structure State (σ : Type) where
  next : ℕ
  stage : ℕ → Stage
  returned : Option Bool
  shared : σ
  /-- The items whose effects have happened, newest first. -/
  log : List ℕ

inductive Input
  | prepare
  | send (i : ℕ)
  | record (i : ℕ)
  | join (i : ℕ)
  | finish

variable (B : Batch σ)

def step (s : State σ) : Input → Option (State σ)
  | .prepare => do
    guard (s.returned = none)
    let item ← B.prepared[s.next]?
    match item with
    | .task =>
      return { s with next := s.next + 1, stage := Function.update s.stage s.next .spawned }
    | .skip => return { s with next := s.next + 1 }
    | .now =>
      return { s with
        next := s.next + 1
        shared := B.effect s.next s.shared
        log := s.next :: s.log }
    | .abort => return { s with returned := some false }
  | .send i => do
    guard (s.returned = none ∧ s.stage i = .spawned)
    return { s with stage := Function.update s.stage i .sent }
  | .record i => do
    guard (s.returned = none ∧ s.stage i = .sent)
    return { s with
      stage := Function.update s.stage i .recorded
      shared := B.effect i s.shared
      log := i :: s.log }
  | .join i => do
    guard (s.returned = none ∧ s.next = B.prepared.length ∧ s.stage i = .recorded)
    return { s with
      stage := Function.update s.stage i .joined
      returned := if B.ok i then none else some false }
  | .finish => do
    guard (s.returned = none ∧ s.next = B.prepared.length ∧
      ∀ i < s.next, s.stage i = .absent ∨ s.stage i = .joined)
    return { s with returned := some true }

def system (shared : σ) : System (State σ) Input where
  init := { next := 0, stage := fun _ => .absent, returned := none, shared, log := [] }
  step := B.step

/-- The runs of a batch, whatever the order of the tasks. -/
abbrev Runs (shared : σ) (past : List Input) (s : State σ) : Prop :=
  (B.system shared).Run (fun _ _ => True) past s

/-! ## What a run has done -/

structure Inv (shared : σ) (s : State σ) : Prop where
  next_le : s.next ≤ B.prepared.length
  stage : ∀ i, s.stage i ≠ .absent ↔ i < s.next ∧ B.prepared[i]? = some .task
  mem_log : ∀ i, i ∈ s.log ↔
    s.stage i = .recorded ∨ s.stage i = .joined ∨ i < s.next ∧ B.prepared[i]? = some .now
  nodup : s.log.Nodup
  shared : s.shared = s.log.foldr B.effect shared
  returnedTrue : s.returned = some true →
    s.next = B.prepared.length ∧ ∀ i, s.stage i = .absent ∨ s.stage i = .joined
  returnedFalse : s.returned = some false → B.prepared[s.next]? = some .abort ∨
    s.next = B.prepared.length ∧ ∃ i, s.stage i = .joined ∧ B.ok i = false

section Steps

variable {B} {shared : σ} {s s' : State σ}

/-- What the loop does with its next item. -/
theorem prepare_cases (h : B.step s .prepare = some s') :
    s.returned = none ∧
      (B.prepared[s.next]? = some .task ∧ s' = { s with
          next := s.next + 1, stage := Function.update s.stage s.next .spawned } ∨
        B.prepared[s.next]? = some .skip ∧ s' = { s with next := s.next + 1 } ∨
        B.prepared[s.next]? = some .now ∧ s' = { s with
          next := s.next + 1, shared := B.effect s.next s.shared, log := s.next :: s.log } ∨
        B.prepared[s.next]? = some .abort ∧ s' = { s with returned := some false }) := by
  simp only [step, Option.bind_eq_bind, Option.bind_eq_some_iff, Option.guard_eq_some', exists_const,
    Option.pure_def] at h
  obtain ⟨hnone, item, hitem, h⟩ := h
  refine ⟨hnone, ?_⟩
  cases item <;> simp only [Option.some.injEq] at h <;> simp [hitem, h]

theorem inv_init : B.Inv shared (B.system shared).init where
  next_le := Nat.zero_le _
  stage i := by simp [system]
  mem_log i := by simp [system]
  nodup := .nil
  shared := rfl
  returnedTrue h := by cases h
  returnedFalse h := by cases h

theorem inv_prepare (hinv : B.Inv shared s) (h : B.step s .prepare = some s') :
    B.Inv shared s' := by
  obtain ⟨hnone, ⟨hitem, rfl⟩ | ⟨hitem, rfl⟩ | ⟨hitem, rfl⟩ | ⟨hitem, rfl⟩⟩ := prepare_cases h
  all_goals
    have hlt := (List.getElem?_eq_some_iff.mp hitem).1
    have habsent : s.stage s.next = .absent := by
      by_contra hstage
      exact absurd ((hinv.stage _).mp hstage).1 (lt_irrefl _)
  · refine ⟨hlt, fun i => ?_, fun i => ?_, hinv.nodup, hinv.shared, ?_, ?_⟩
    · have hi := hinv.stage i
      by_cases heq : i = s.next
      · simp [heq, hitem]
      · grind [Function.update_of_ne]
    · have hi := hinv.mem_log i
      by_cases heq : i = s.next
      · subst heq
        simp [hi, habsent, hitem]
      · grind [Function.update_of_ne]
    all_goals simp [hnone]
  · refine ⟨hlt, ?_, ?_, hinv.nodup, hinv.shared, ?_, ?_⟩
    · grind [hinv.stage]
    · grind [hinv.mem_log]
    all_goals simp [hnone]
  · refine ⟨hlt, ?_, ?_, ?_, ?_, ?_, ?_⟩
    · grind [hinv.stage]
    · grind [hinv.mem_log]
    · refine hinv.nodup.cons ?_
      grind [hinv.mem_log]
    · simp [hinv.shared]
    all_goals simp [hnone]
  · exact ⟨hinv.next_le, hinv.stage, hinv.mem_log, hinv.nodup, hinv.shared, by simp,
      fun _ => .inl hitem⟩

/-- A task goes on: it stays a task, and its effect is there from `recorded` on. -/
theorem inv_task {i : ℕ} (hinv : B.Inv shared s) (hnone : s.returned = none) {stage : Stage}
    (hold : s.stage i ≠ .absent) (hnew : stage ≠ .absent)
    (hdone : stage = .recorded ∨ stage = .joined ↔ s.stage i = .recorded ∨ s.stage i = .joined) :
    B.Inv shared { s with stage := Function.update s.stage i stage } where
  next_le := hinv.next_le
  stage j := by
    have hj := hinv.stage j
    by_cases heq : j = i
    · subst heq
      simp [hnew, ← hj, hold]
    · simpa [Function.update_of_ne heq] using hj
  mem_log j := by
    have hj := hinv.mem_log j
    by_cases heq : j = i
    · subst heq
      simp only [Function.update_self]
      grind
    · simpa [Function.update_of_ne heq] using hj
  nodup := hinv.nodup
  shared := hinv.shared
  returnedTrue := by simp [hnone]
  returnedFalse := by simp [hnone]

theorem inv_record {i : ℕ} (hinv : B.Inv shared s) (hnone : s.returned = none)
    (hsent : s.stage i = .sent) :
    B.Inv shared { s with
      stage := Function.update s.stage i .recorded
      shared := B.effect i s.shared
      log := i :: s.log } := by
  have htask := (hinv.stage i).mp (by simp [hsent])
  refine ⟨hinv.next_le, fun j => ?_, fun j => ?_, hinv.nodup.cons ?_, ?_, ?_, ?_⟩
  · have hj := hinv.stage j
    by_cases heq : j = i
    · subst heq
      simp [htask]
    · simpa [Function.update_of_ne heq] using hj
  · have hj := hinv.mem_log j
    by_cases heq : j = i
    · simp [heq]
    · simpa [Function.update_of_ne heq, heq] using hj
  · rw [hinv.mem_log i, hsent, htask.2]
    simp
  · simp [hinv.shared]
  all_goals simp [hnone]

theorem inv_step {i : Input} (hinv : B.Inv shared s) (h : B.step s i = some s') :
    B.Inv shared s' := by
  cases i with
  | prepare => exact inv_prepare hinv h
  | send i =>
    simp only [step, Option.bind_eq_bind, Option.bind_eq_some_iff, Option.guard_eq_some',
      exists_const, Option.pure_def, Option.some.injEq] at h
    obtain ⟨⟨hnone, hstage⟩, rfl⟩ := h
    exact inv_task hinv hnone (by simp [hstage]) (by simp) (by simp [hstage])
  | record i =>
    simp only [step, Option.bind_eq_bind, Option.bind_eq_some_iff, Option.guard_eq_some',
      exists_const, Option.pure_def, Option.some.injEq] at h
    obtain ⟨⟨hnone, hstage⟩, rfl⟩ := h
    exact inv_record hinv hnone hstage
  | join i =>
    simp only [step, Option.bind_eq_bind, Option.bind_eq_some_iff, Option.guard_eq_some',
      exists_const, Option.pure_def, Option.some.injEq] at h
    obtain ⟨⟨hnone, hnext, hstage⟩, rfl⟩ := h
    have hjoined : B.Inv shared { s with stage := Function.update s.stage i .joined } :=
      inv_task hinv hnone (by simp [hstage]) (by simp) (by simp [hstage])
    refine ⟨hjoined.next_le, hjoined.stage, hjoined.mem_log, hjoined.nodup, hjoined.shared, ?_, ?_⟩
    · cases hok : B.ok i <;> simp
    · intro hfalse
      refine .inr ⟨hnext, i, by simp, ?_⟩
      cases hok : B.ok i
      · rfl
      · simp [hok] at hfalse
  | finish =>
    simp only [step, Option.bind_eq_bind, Option.bind_eq_some_iff, Option.guard_eq_some',
      exists_const, Option.pure_def, Option.some.injEq] at h
    obtain ⟨⟨hnone, hnext, hall⟩, rfl⟩ := h
    refine ⟨hinv.next_le, hinv.stage, hinv.mem_log, hinv.nodup, hinv.shared, fun _ => ⟨hnext, ?_⟩,
      by simp⟩
    intro i
    by_cases habsent : s.stage i = .absent
    · exact .inl habsent
    · exact hall i ((hinv.stage i).mp habsent).1

theorem runs_step {past : List Input} {i : Input} (h : B.Runs shared past s)
    (hstep : B.step s i = some s') : B.Runs shared (i :: past) s' :=
  .step h trivial hstep

theorem inv_of_run {past : List Input} (h : B.Runs shared past s) : B.Inv shared s :=
  h.invariant inv_init fun _ _ _ _ _ hinv _ hstep => inv_step hinv hstep

end Steps

/-! ## Isolation -/

/-- The item has an effect of its own. -/
def Acts (i : ℕ) : Prop :=
  B.prepared[i]? = some .task ∨ B.prepared[i]? = some .now

/-- The item ends the call with an error. -/
def Fails (i : ℕ) : Prop :=
  B.prepared[i]? = some .abort ∨ B.prepared[i]? = some .task ∧ B.ok i = false

/-- The effects that a failure of `i` can take away. -/
def Loses (i j : ℕ) : Prop :=
  B.prepared[j]? = some .task ∨
    B.prepared[i]? = some .abort ∧ i < j ∧ B.prepared[j]? = some .now

/-- No failure takes the effect of another item away. -/
def Isolated : Prop := ∀ i j, i ≠ j → B.Fails i → ¬ B.Loses i j

instance (i : ℕ) : Decidable (B.Acts i) := inferInstanceAs (Decidable (_ ∨ _))

section Isolation

variable {B} {shared : σ} {past : List Input} {s : State σ}

theorem acts_of_mem_log {i : ℕ} (h : B.Runs shared past s) (hi : i ∈ s.log) : B.Acts i := by
  have hinv := inv_of_run h
  obtain hstage | hstage | ⟨-, hnow⟩ := (hinv.mem_log i).mp hi
  · exact .inl ((hinv.stage i).mp (by simp [hstage])).2
  · exact .inl ((hinv.stage i).mp (by simp [hstage])).2
  · exact .inr hnow

/-- A task whose effect is there has sent what it sends. -/
theorem isSent_of_mem_log {i : ℕ} (h : B.Runs shared past s) (hi : i ∈ s.log)
    (htask : B.prepared[i]? = some .task) : (s.stage i).IsSent := by
  obtain hstage | hstage | ⟨-, hnow⟩ := ((inv_of_run h).mem_log i).mp hi
  · simp [hstage, Stage.IsSent]
  · simp [hstage, Stage.IsSent]
  · simp [hnow] at htask

theorem mem_log_of_isolated (hiso : B.Isolated) (h : B.Runs shared past s)
    (hret : s.returned.isSome) {i : ℕ} (hi : B.Acts i) : i ∈ s.log := by
  have hinv := inv_of_run h
  rw [hinv.mem_log]
  have hlt : i < B.prepared.length := by
    obtain hi | hi := hi <;> exact (List.getElem?_eq_some_iff.mp hi).1
  obtain ⟨_ | _, hret⟩ := Option.isSome_iff_exists.mp hret
  · obtain habort | ⟨hnext, j, hjoined, hok⟩ := hinv.returnedFalse hret
    · -- the loop was left at an item, which leaves no task and nothing to do after it
      obtain htask | hnow := hi
      · have hne : s.next ≠ i := by
          rintro rfl
          simp [htask] at habort
        exact absurd (.inl htask) (hiso _ _ hne (.inl habort))
      · refine .inr (.inr ⟨?_, hnow⟩)
        by_contra hle
        have hne : s.next ≠ i := by
          rintro rfl
          simp [hnow] at habort
        exact hiso _ _ hne (.inl habort) (.inr ⟨habort, by omega, hnow⟩)
    · -- a task failed, and it is the only one
      obtain htask | hnow := hi
      · have hfails : B.Fails j := .inr ⟨((hinv.stage j).mp (by simp [hjoined])).2, hok⟩
        by_cases heq : j = i
        · exact .inr (.inl (heq ▸ hjoined))
        · exact absurd (.inl htask) (hiso _ _ heq hfails)
      · exact .inr (.inr ⟨hnext ▸ hlt, hnow⟩)
  · obtain ⟨hnext, hall⟩ := hinv.returnedTrue hret
    obtain htask | hnow := hi
    · have hstage := (hinv.stage i).mpr ⟨hnext ▸ hlt, htask⟩
      exact .inr (.inl ((hall i).resolve_left hstage))
    · exact .inr (.inr ⟨hnext ▸ hlt, hnow⟩)

/-! ### Runs that exist -/

/-- The loop can come as far as its first early return with no task begun. -/
theorem exists_prepared {k : ℕ} (hk : k ≤ B.prepared.length)
    (hclean : ∀ i < k, B.prepared[i]? ≠ some .abort) :
    ∃ past s, B.Runs shared past s ∧ s.next = k ∧ s.returned = none ∧
      ∀ i, s.stage i = .absent ∨ s.stage i = .spawned := by
  induction k with
  | zero => exact ⟨[], _, .start, rfl, rfl, fun _ => .inl rfl⟩
  | succ k ih =>
    obtain ⟨past, s, hrun, rfl, hnone, hstage⟩ :=
      ih (by omega) fun i hi => hclean i (by omega)
    obtain ⟨item, hitem⟩ : ∃ item, B.prepared[s.next]? = some item :=
      ⟨_, List.getElem?_eq_getElem hk⟩
    cases item with
    | task =>
      have hstep : B.step s .prepare = some { s with
          next := s.next + 1, stage := Function.update s.stage s.next .spawned } := by
        simp [step, hnone, hitem]
      refine ⟨_, _, runs_step hrun hstep, rfl, hnone, fun i => ?_⟩
      by_cases heq : i = s.next
      · simp [heq]
      · simpa [Function.update_of_ne heq] using hstage i
    | skip =>
      have hstep : B.step s .prepare = some { s with next := s.next + 1 } := by
        simp [step, hnone, hitem]
      exact ⟨_, _, runs_step hrun hstep, rfl, hnone, hstage⟩
    | now =>
      have hstep : B.step s .prepare = some { s with
          next := s.next + 1, shared := B.effect s.next s.shared, log := s.next :: s.log } := by
        simp [step, hnone, hitem]
      exact ⟨_, _, runs_step hrun hstep, rfl, hnone, hstage⟩
    | abort => exact absurd hitem (hclean s.next (by omega))

/-- A task can run to its end with no other task going on. -/
theorem exists_joined {i : ℕ} (hrun : B.Runs shared past s) (hnone : s.returned = none)
    (hnext : s.next = B.prepared.length) (hstage : s.stage i = .spawned) :
    ∃ past' s', B.Runs shared past' s' ∧ s'.next = s.next ∧
      s'.stage = Function.update s.stage i .joined ∧
      s'.returned = if B.ok i then none else some false := by
  refine ⟨.join i :: .record i :: .send i :: past, { s with
    stage := Function.update s.stage i .joined
    returned := if B.ok i then none else some false
    shared := B.effect i s.shared
    log := i :: s.log }, ?_, rfl, rfl, rfl⟩
  have hsent : B.Runs shared (.send i :: past)
      { s with stage := Function.update s.stage i .sent } :=
    .step hrun trivial (by simp [system, step, hnone, hstage])
  have hrecorded : B.Runs shared (.record i :: .send i :: past)
      { s with
        stage := Function.update s.stage i .recorded
        shared := B.effect i s.shared
        log := i :: s.log } :=
    .step hsent trivial (by simp [system, step, hnone])
  exact .step hrecorded trivial (by simp [system, step, hnone, hnext])

/-- The first item that makes the loop return. -/
theorem exists_first_abort {i : ℕ} (h : B.prepared[i]? = some .abort) :
    ∃ k ≤ i, B.prepared[k]? = some .abort ∧ ∀ j < k, B.prepared[j]? ≠ some .abort := by
  have hex : ∃ k : ℕ, B.prepared[k]? = some .abort := ⟨i, h⟩
  exact ⟨Nat.find hex, Nat.find_min' hex h, Nat.find_spec hex, fun j hj => Nat.find_min hex hj⟩

/-- An early return can happen before any task has begun. -/
theorem exists_aborted {i : ℕ} (h : B.prepared[i]? = some .abort) :
    ∃ past s, B.Runs shared past s ∧ s.returned = some false ∧ s.next ≤ i ∧
      ∀ j, s.stage j = .absent ∨ s.stage j = .spawned := by
  obtain ⟨k, hle, hk, hfirst⟩ := exists_first_abort h
  have hlt := (List.getElem?_eq_some_iff.mp hk).1
  obtain ⟨past, s, hrun, rfl, hnone, hstage⟩ := @exists_prepared _ B shared _ hlt.le hfirst
  exact ⟨.prepare :: past, { s with returned := some false },
    .step hrun trivial (by simp [system, step, hnone, hk]), rfl, hle, hstage⟩

/-- What a failure can take away is gone at the end of some run. -/
theorem exists_lost {i j : ℕ} (hne : i ≠ j) (hfails : B.Fails i) (hloses : B.Loses i j) :
    ∃ past s, B.Runs shared past s ∧ s.returned = some false ∧ j ∉ s.log ∧
      ¬ (s.stage j).IsSent := by
  have hlost : ∀ {past s}, B.Runs shared past s → s.stage j = .absent ∨ s.stage j = .spawned →
      (B.prepared[j]? = some .task ∨ s.next ≤ j) → j ∉ s.log ∧ ¬ (s.stage j).IsSent := by
    intro past s hrun hstage hj
    rw [(inv_of_run hrun).mem_log j]
    obtain hstage | hstage := hstage <;> obtain hj | hj := hj <;>
      simp [hstage, hj, Stage.IsSent]
  by_cases habort : ∃ k : ℕ, k ≠ j ∧ B.prepared[k]? = some .abort ∧ B.Loses k j
  · obtain ⟨k, -, hk, hloses⟩ := habort
    obtain ⟨past, s, hrun, hret, hle, hstage⟩ := @exists_aborted _ B shared _ hk
    refine ⟨past, s, hrun, hret, hlost hrun (hstage j) ?_⟩
    obtain htask | ⟨-, hlt, -⟩ := hloses
    · exact .inl htask
    · exact .inr (by omega)
  · obtain hi | ⟨htask, hok⟩ := hfails
    · exact absurd ⟨i, hne, hi, hloses⟩ habort
    · have hj : B.prepared[j]? = some .task := by
        obtain hj | ⟨hi, -⟩ := hloses
        · exact hj
        · simp [htask] at hi
      have hclean : ∀ k < B.prepared.length, B.prepared[k]? ≠ some .abort := by
        rintro k - hk
        refine habort ⟨k, ?_, hk, .inl hj⟩
        rintro rfl
        simp [hj] at hk
      obtain ⟨past, s, hrun, hnext, hnone, hstage⟩ :=
        @exists_prepared _ B shared _ le_rfl hclean
      have hlt := (List.getElem?_eq_some_iff.mp htask).1
      have hspawned : s.stage i = .spawned := by
        refine (hstage i).resolve_left (((inv_of_run hrun).stage i).mpr ⟨by omega, htask⟩)
      obtain ⟨past', s', hrun', -, hstage', hret⟩ := exists_joined hrun hnone hnext hspawned
      refine ⟨past', s', hrun', by simpa [hok] using hret, hlost hrun' ?_ (.inl hj)⟩
      rw [hstage', Function.update_of_ne hne.symm]
      exact hstage j

/-- Tasks that all succeed can be run to their ends one after the other. -/
theorem exists_all_joined (hrun : B.Runs shared past s) (hnone : s.returned = none)
    (hnext : s.next = B.prepared.length) (hok : ∀ i, B.prepared[i]? = some .task → B.ok i = true)
    (hstage : ∀ i, s.stage i = .absent ∨ s.stage i = .spawned) (k : ℕ) :
    ∃ past' s', B.Runs shared past' s' ∧ s'.returned = none ∧ s'.next = B.prepared.length ∧
      (∀ i < k, s'.stage i = .absent ∨ s'.stage i = .joined) ∧
      ∀ i ≥ k, s'.stage i = .absent ∨ s'.stage i = .spawned := by
  induction k with
  | zero => exact ⟨past, s, hrun, hnone, hnext, by simp, fun i _ => hstage i⟩
  | succ k ih =>
    obtain ⟨past', s', hrun', hnone', hnext', hdone, hstage'⟩ := ih
    obtain habsent | hspawned := hstage' k le_rfl
    · refine ⟨past', s', hrun', hnone', hnext', fun i hi => ?_, fun i hi => hstage' i (by omega)⟩
      obtain hlt | rfl := Nat.lt_succ_iff_lt_or_eq.mp hi
      · exact hdone i hlt
      · exact .inl habsent
    · obtain ⟨past'', s'', hrun'', hnext'', hstage'', hret⟩ :=
        exists_joined hrun' hnone' hnext' hspawned
      have htask := ((inv_of_run hrun').stage k).mp (by simp [hspawned])
      refine ⟨past'', s'', hrun'', by simpa [hok k htask.2] using hret, hnext''.trans hnext',
        fun i hi => ?_, fun i hi => ?_⟩
      · rw [hstage'']
        by_cases heq : i = k
        · simp [heq]
        · simpa [Function.update_of_ne heq] using hdone i (by omega)
      · rw [hstage'', Function.update_of_ne (by omega)]
        exact hstage' i (by omega)

/-- Every batch can come to an end. -/
theorem exists_returned (B : Batch σ) (shared : σ) :
    ∃ past s, B.Runs shared past s ∧ s.returned.isSome := by
  by_cases hfails : ∃ i : ℕ, B.prepared[i]? = some .abort
  · obtain ⟨i, hi⟩ := hfails
    obtain ⟨past, s, hrun, hret, -⟩ := @exists_aborted _ B shared _ hi
    exact ⟨past, s, hrun, by simp [hret]⟩
  · obtain ⟨past, s, hrun, hnext, hnone, hstage⟩ :=
      @exists_prepared _ B shared _ le_rfl fun i _ hi => hfails ⟨i, hi⟩
    have hspawned : ∀ i, B.prepared[i]? = some .task → s.stage i = .spawned := by
      intro i hi
      have hlt := (List.getElem?_eq_some_iff.mp hi).1
      exact (hstage i).resolve_left (((inv_of_run hrun).stage i).mpr ⟨by omega, hi⟩)
    by_cases hok : ∀ i, B.prepared[i]? = some .task → B.ok i = true
    · obtain ⟨past', s', hrun', hnone', hnext', hdone, -⟩ :=
        exists_all_joined hrun hnone hnext hok hstage B.prepared.length
      refine ⟨_, { s' with returned := some true }, runs_step (i := .finish) hrun' ?_, rfl⟩
      have hall : ∀ i < s'.next, s'.stage i = .absent ∨ s'.stage i = .joined := by
        rw [hnext']
        exact hdone
      simp only [step]
      rw [guard, if_pos ⟨hnone', hnext', hall⟩]
      rfl
    · obtain ⟨i, hi, hfail⟩ : ∃ i : ℕ, B.prepared[i]? = some .task ∧ B.ok i = false := by
        simpa using hok
      obtain ⟨past', s', hrun', -, -, hret⟩ := exists_joined hrun hnone hnext (hspawned i hi)
      exact ⟨past', s', hrun', by simp [hret, hfail]⟩

end Isolation

/-! ## The shared state -/

/-- What a run leaves of a part of the shared state. The effects of some items change the part, each
in its own way. -/
theorem get_shared {τ : Type*} {B : Batch σ} {shared : σ} {past : List Input} {s : State σ}
    (get : σ → τ) (touches : ℕ → Bool) (own : ℕ → τ → τ)
    (hget : ∀ i x, get (B.effect i x) = if touches i then own i (get x) else get x)
    (h : B.Runs shared past s) :
    get s.shared = (s.log.filter touches).foldr own (get shared) := by
  rw [(inv_of_run h).shared]
  clear h
  induction s.log with
  | nil => rfl
  | cons i log ih =>
    rw [List.foldr_cons, hget, List.filter_cons, ih]
    split <;> rfl

end Batch

end Foundation
