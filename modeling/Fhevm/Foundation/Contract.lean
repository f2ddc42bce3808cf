import Mathlib

/-!
# Contracts as revert-or-commit machines

A contract answers a call by an output and the next state, or reverts, and then
the state is the one before the call. A run is the list of the calls made so
far, newest first; reverted calls are in it.

## Main definitions

* `require` — revert unless a condition holds.
* `Contract` — what one call does.
* `Contract.exec` — the state after a list of calls.
* `Contract.Ran` — a call of a run, together with the calls made before it.
* `Post` — the result satisfies one predicate, or the error another one.
* `Post.bind` — the rule of sequences.
* `Calls` — calls of a contract, with those that are made while it waits for others.
* `Calls.exec` — their effect, and the events of those that are not taken back.
* `Calls.exec_rel` — what each call keeps if the calls inside it do, all calls keep.
-/

namespace Foundation

universe u

variable {σ ι ε ω : Type*} {α β : Type u}

/-! ## Checks -/

/-- Revert with `e` unless `p` holds. -/
def require (p : Prop) [Decidable p] (e : ε) : Except ε Unit :=
  if p then .ok () else .error e

@[simp] theorem require_eq_ok {p : Prop} [Decidable p] {e : ε} {u : Unit} :
    require p e = .ok u ↔ p := by
  unfold require
  split_ifs <;> simp_all

@[simp] theorem require_eq_error {p : Prop} [Decidable p] {e e' : ε} :
    require p e = .error e' ↔ ¬ p ∧ e = e' := by
  unfold require
  split_ifs <;> simp_all

@[simp] theorem bind_eq_ok {x : Except ε α} {f : α → Except ε β} {b : β} :
    (x >>= f) = .ok b ↔ ∃ a, x = .ok a ∧ f a = .ok b := by
  cases x <;> simp [Bind.bind, Except.bind]

theorem bind_eq_error {x : Except ε α} {f : α → Except ε β} {e : ε} :
    (x >>= f) = .error e ↔ x = .error e ∨ ∃ a, x = .ok a ∧ f a = .error e := by
  cases x <;> simp [Bind.bind, Except.bind]

@[simp] theorem map_eq_ok {x : Except ε α} {f : α → β} {b : β} :
    (f <$> x) = .ok b ↔ ∃ a, x = .ok a ∧ f a = b := by
  cases x <;> simp [Functor.map, Except.map]

theorem pure_ne_error {a : α} {e : ε} : (pure a : Except ε α) ≠ .error e := nofun

@[simp] theorem pure_eq_ok {a b : α} : (pure a : Except ε α) = .ok b ↔ a = b := by
  simp [Pure.pure, Except.pure]

@[simp] theorem mapError_eq_ok {ε' : Type*} {f : ε → ε'} {x : Except ε α} {a : α} :
    x.mapError f = .ok a ↔ x = .ok a := by
  cases x <;> simp [Except.mapError]

theorem mapError_eq_error {ε' : Type*} {f : ε → ε'} {x : Except ε α} {e : ε'} :
    x.mapError f = .error e ↔ ∃ e', x = .error e' ∧ f e' = e := by
  cases x <;> simp [Except.mapError]

theorem mapM_eq_ok {f : α → Except ε β} {as : List α} {bs : List β} :
    as.mapM f = .ok bs ↔ List.Forall₂ (fun a b => f a = .ok b) as bs := by
  induction as generalizing bs with
  | nil => rw [List.mapM_nil, pure_eq_ok, List.forall₂_nil_left_iff, eq_comm]
  | cons a as ih =>
    simp only [List.mapM_cons, bind_eq_ok, pure_eq_ok, List.forall₂_cons_left_iff, ih]
    grind

/-- Each result of a list is that of an element. -/
theorem exists_of_mem_mapM {f : α → Except ε β} {as : List α} {bs : List β}
    (h : as.mapM f = .ok bs) {b : β} (hb : b ∈ bs) : ∃ a ∈ as, f a = .ok b := by
  induction as generalizing bs with
  | nil => simp_all
  | cons a as ih =>
    simp only [List.mapM_cons, bind_eq_ok, pure_eq_ok] at h
    obtain ⟨_, ha, bs', hbs, rfl⟩ := h
    obtain rfl | hb := List.mem_cons.mp hb
    · exact ⟨a, List.mem_cons_self, ha⟩
    · obtain ⟨a', ha', hf⟩ := ih hbs hb
      exact ⟨a', List.mem_cons_of_mem _ ha', hf⟩

/-- Each element of a list has a result. -/
theorem mapM_of_mem {f : α → Except ε β} {as : List α} {bs : List β} (h : as.mapM f = .ok bs)
    {a : α} (ha : a ∈ as) : ∃ b ∈ bs, f a = .ok b := by
  induction as generalizing bs with
  | nil => simp_all
  | cons a' as ih =>
    simp only [List.mapM_cons, bind_eq_ok, pure_eq_ok] at h
    obtain ⟨b, hb, bs', hbs, rfl⟩ := h
    obtain rfl | ha := List.mem_cons.mp ha
    · exact ⟨b, List.mem_cons_self, hb⟩
    · obtain ⟨b', hb', hf⟩ := ih hbs ha
      exact ⟨b', List.mem_cons_of_mem _ hb', hf⟩

theorem exists_mapM_ok {f : α → Except ε β} {as : List α} (h : ∀ a ∈ as, ∃ b, f a = .ok b) :
    ∃ bs, as.mapM f = .ok bs ∧ bs.length = as.length := by
  induction as with
  | nil => exact ⟨[], rfl, rfl⟩
  | cons a as ih =>
    obtain ⟨b, hb⟩ := h a List.mem_cons_self
    obtain ⟨bs, hbs, hlength⟩ := ih fun a ha => h a (List.mem_cons_of_mem _ ha)
    refine ⟨b :: bs, ?_, congrArg (· + 1) hlength⟩
    simp only [List.mapM_cons, bind_eq_ok, pure_eq_ok]
    exact ⟨b, hb, bs, hbs, rfl⟩

/-- The error of a list is that of an element. -/
theorem exists_error_of_mapM {f : α → Except ε β} {as : List α} {e : ε}
    (h : as.mapM f = .error e) : ∃ a ∈ as, f a = .error e := by
  induction as with
  | nil => cases h
  | cons a as ih =>
    simp only [List.mapM_cons, bind_eq_error] at h
    obtain ha | ⟨b, -, hrest | ⟨_, -, hpure⟩⟩ := h
    · exact ⟨a, List.mem_cons_self, ha⟩
    · obtain ⟨a', ha', hf⟩ := ih hrest
      exact ⟨a', List.mem_cons_of_mem _ ha', hf⟩
    · cases hpure

theorem forM_eq_ok {f : α → Except ε PUnit} {as : List α} {u : PUnit} :
    forM as f = .ok u ↔ ∀ a ∈ as, f a = .ok .unit := by
  induction as with
  | nil => simp
  | cons a as ih =>
    simp only [List.forM_cons, bind_eq_ok, ih, List.forall_mem_cons]
    exact ⟨fun ⟨_, ha, has⟩ => ⟨ha, has⟩, fun ⟨ha, has⟩ => ⟨_, ha, has⟩⟩

/-- What the step of every element keeps holds after a successful fold. -/
theorem foldlM_invariant_mem {σ : Type u} {f : σ → α → Except ε σ} {P : σ → Prop} {as : List α}
    (keep : ∀ s, ∀ a ∈ as, ∀ s', P s → f s a = .ok s' → P s') {s s' : σ} (hs : P s)
    (h : as.foldlM f s = .ok s') : P s' := by
  induction as generalizing s with
  | nil =>
    cases h
    exact hs
  | cons a as ih =>
    rw [List.foldlM_cons, bind_eq_ok] at h
    obtain ⟨next, ha, has⟩ := h
    refine ih (fun s b hb => keep s b (List.mem_cons_of_mem _ hb)) ?_ has
    exact keep s a List.mem_cons_self next hs ha

/-- What every step keeps holds after a successful fold. -/
theorem foldlM_invariant {σ : Type u} {f : σ → α → Except ε σ} {P : σ → Prop}
    (keep : ∀ s a s', P s → f s a = .ok s' → P s') {as : List α} {s s' : σ} (hs : P s)
    (h : as.foldlM f s = .ok s') : P s' :=
  foldlM_invariant_mem (fun s a _ s' => keep s a s') hs h

theorem exists_of_isOk {x : Except ε α} (h : x.isOk = true) : ∃ a, x = .ok a := by
  cases x with
  | error e => cases h
  | ok a => exact ⟨a, rfl⟩

theorem exists_error_iff {x : Except ε α} : (∃ e, x = .error e) ↔ ∀ a, x ≠ .ok a := by
  cases x <;> simp

/-! ## Runs -/

/-- What a call does: an output and the next state, or a revert. -/
structure Contract (ι σ ε ω : Type*) where
  call : ι → σ → Except ε (ω × σ)

namespace Contract

variable (C : Contract ι σ ε ω)

/-- The state after a call. A revert restores the state before it. -/
def step (i : ι) (s : σ) : σ :=
  match C.call i s with
  | .ok (_, s') => s'
  | .error _ => s

/-- The state after a run, given newest call first. -/
def exec (s₀ : σ) : List ι → σ
  | [] => s₀
  | i :: past => C.step i (exec s₀ past)

variable {C}

@[simp] theorem exec_nil {s₀ : σ} : C.exec s₀ [] = s₀ := rfl

@[simp] theorem exec_cons {s₀ : σ} {i : ι} {past : List ι} :
    C.exec s₀ (i :: past) = C.step i (C.exec s₀ past) := rfl

theorem step_of_ok {i : ι} {s s' : σ} {o : ω} (h : C.call i s = .ok (o, s')) :
    C.step i s = s' := by
  simp [step, h]

theorem step_of_error {i : ι} {s : σ} {e : ε} (h : C.call i s = .error e) : C.step i s = s := by
  simp [step, h]

/-- A call that reverts, or one that commits. -/
theorem step_cases (i : ι) (s : σ) :
    (∃ e, C.call i s = .error e ∧ C.step i s = s) ∨
      ∃ o, C.call i s = .ok (o, C.step i s) := by
  cases h : C.call i s with
  | error e => exact .inl ⟨e, rfl, step_of_error h⟩
  | ok r =>
    obtain ⟨o, s'⟩ := r
    exact .inr ⟨o, by rw [step_of_ok h]⟩

theorem exec_append {s₀ : σ} (later past : List ι) :
    C.exec s₀ (later ++ past) = C.exec (C.exec s₀ past) later := by
  induction later with
  | nil => rfl
  | cons i later ih => simp [ih]

/-- The call `i` of the run, made after the calls `past`. -/
def Ran (calls : List ι) (i : ι) (past : List ι) : Prop := (i :: past) <:+ calls

@[simp] theorem not_ran_nil {i : ι} {past : List ι} : ¬ Ran [] i past := by
  simp [Ran]

theorem ran_cons {j : ι} {calls : List ι} {i : ι} {past : List ι} :
    Ran (j :: calls) i past ↔ (j = i ∧ calls = past) ∨ Ran calls i past := by
  simp only [Ran, List.suffix_cons_iff, List.cons.injEq]
  grind

theorem Ran.head (i : ι) (past : List ι) : Ran (i :: past) i past := List.suffix_rfl

theorem Ran.tail {j : ι} {calls : List ι} {i : ι} {past : List ι} (h : Ran calls i past) :
    Ran (j :: calls) i past := ran_cons.mpr (.inr h)

theorem Ran.of_suffix {calls calls' : List ι} {i : ι} {past : List ι} (h : Ran calls i past)
    (hs : calls <:+ calls') : Ran calls' i past := h.trans hs

/-- The calls before a call of a run are a run of their own. -/
theorem Ran.past_suffix {calls : List ι} {i : ι} {past : List ι} (h : Ran calls i past) :
    past <:+ calls := (List.suffix_cons i past).trans h

/-! ## Rules -/

/-- What every committed call preserves holds after every run. -/
theorem exec_invariant {s₀ : σ} {P : σ → Prop} (init : P s₀)
    (keep : ∀ i s o s', P s → C.call i s = .ok (o, s') → P s') (calls : List ι) :
    P (C.exec s₀ calls) := by
  induction calls with
  | nil => exact init
  | cons i past ih =>
    obtain ⟨e, -, hs⟩ | ⟨o, ho⟩ := step_cases i (C.exec s₀ past) (C := C)
    · rwa [exec_cons, hs]
    · exact keep i _ o _ ih ho

/-- The same with what is known of the run so far, for invariants that mention it. -/
theorem exec_induction {s₀ : σ} {P : List ι → σ → Prop} (init : P [] s₀)
    (commit : ∀ i past o s', P past (C.exec s₀ past) → C.call i (C.exec s₀ past) = .ok (o, s') →
      P (i :: past) s')
    (revert : ∀ i past e, P past (C.exec s₀ past) → C.call i (C.exec s₀ past) = .error e →
      P (i :: past) (C.exec s₀ past)) (calls : List ι) : P calls (C.exec s₀ calls) := by
  induction calls with
  | nil => exact init
  | cons i past ih =>
    obtain ⟨e, he, hs⟩ | ⟨o, ho⟩ := step_cases i (C.exec s₀ past) (C := C)
    · rw [exec_cons, hs]
      exact revert i past e ih he
    · exact commit i past o _ ih ho

/-- A reflexive and transitive relation kept by every committed call relates the
state at any time of a run to the state at any later time. -/
theorem exec_rel {s₀ : σ} {r : σ → σ → Prop} (refl : ∀ s, r s s)
    (trans : ∀ a b c, r a b → r b c → r a c)
    (keep : ∀ i s o s', C.call i s = .ok (o, s') → r s s') {past calls : List ι}
    (h : past <:+ calls) : r (C.exec s₀ past) (C.exec s₀ calls) := by
  obtain ⟨later, rfl⟩ := h
  rw [exec_append]
  induction later with
  | nil => exact refl _
  | cons i later ih =>
    obtain ⟨e, -, hs⟩ | ⟨o, ho⟩ := step_cases i (C.exec (C.exec s₀ past) later) (C := C)
    · rwa [exec_cons, hs]
    · exact trans _ _ _ ih (keep i _ o _ ho)

/-- A condition on the calls that is sufficient and necessary at each call is so for
whole runs. -/
theorem forall_ran_iff {P Q : ι → List ι → Prop} (h : ∀ i past, P i past ↔ Q i past)
    (calls : List ι) :
    (∀ i past, Ran calls i past → P i past) ↔ ∀ i past, Ran calls i past → Q i past := by
  simp only [h]

end Contract

end Foundation

/-! ## Postconditions of computations that may fail

What is known of a computation that may fail is split in two: what holds of its result, and which
errors it may fail with. Both are carried through sequences of computations. -/

namespace Foundation

universe u

variable {ε : Type*} {α β : Type u}

/-- A result satisfies `Q`, and an error satisfies `E`. -/
def Post (Q : α → Prop) (E : ε → Prop) : Except ε α → Prop
  | .ok a => Q a
  | .error e => E e

namespace Post

variable {Q R : α → Prop} {S : β → Prop} {E F : ε → Prop} {x : Except ε α}

theorem pure {a : α} (h : Q a) : Post Q E (Pure.pure a : Except ε α) := h

theorem throw {e : ε} (h : E e) : Post Q E (.error e : Except ε α) := h

theorem require {p : Prop} [Decidable p] {e : ε} (h : ¬ p → E e) :
    Post (fun _ => p) E (Foundation.require p e) := by
  by_cases hp : p
  · rw [Foundation.require, if_pos hp]
    exact hp
  · rw [Foundation.require, if_neg hp]
    exact h hp

/-- A check that holds. -/
theorem require_of {p : Prop} [Decidable p] {e : ε} (hp : p) :
    Post (fun _ => True) E (Foundation.require p e) := by
  rw [Foundation.require, if_pos hp]
  trivial

theorem bind {f : α → Except ε β} (hx : Post Q E x) (hf : ∀ a, Q a → Post S E (f a)) :
    Post S E (x >>= f) := by
  cases x with
  | ok a => exact hf a hx
  | error e => exact hx

theorem mono (h : Post Q E x) (hQ : ∀ a, Q a → R a) (hE : ∀ e, E e → F e) : Post R F x := by
  cases x with
  | ok a => exact hQ a h
  | error e => exact hE e h

theorem imp (h : Post Q E x) (hQ : ∀ a, Q a → R a) : Post R E x := h.mono hQ fun _ => id

theorem of_ok {a : α} (h : Post Q E x) (hx : x = .ok a) : Q a := by
  subst hx
  exact h

theorem of_error {e : ε} (h : Post Q E x) (hx : x = .error e) : E e := by
  subst hx
  exact h

/-- Results and errors may be looked at apart. -/
theorem intro (hQ : ∀ a, x = .ok a → Q a) (hE : ∀ e, x = .error e → E e) : Post Q E x := by
  cases x with
  | ok a => exact hQ a rfl
  | error e => exact hE e rfl

/-- A computation whose result is known. -/
theorem of_eq {a : α} (hx : x = .ok a) (hQ : Q a) : Post Q E x := by
  subst hx
  exact hQ

end Post

end Foundation

/-! ## Calls that are entered again

A contract calls other contracts, which may call it again before they return, to any depth. A call
that reverts takes all effects back, those of the calls inside it included, and its caller may go
on. -/

namespace Foundation

/-- A list of events and the state after them, or a revert. -/
abbrev Effect (σ ε ω : Type*) := σ → Except ε (List ω × σ)

inductive Calls (ι : Type*)
  | done
  | revert
  | call (i : ι) (during next : Calls ι)
  /-- Calls whose revert is caught. -/
  | attempt (body next : Calls ι)

namespace Calls

variable {ι σ ε ω : Type*} (call : ι → Effect σ ε ω → Effect σ ε ω) (reverted : ε)

/-- A call is given the effect of the calls that are made while it waits. -/
def exec : Calls ι → Effect σ ε ω
  | done, s => .ok ([], s)
  | revert, _ => .error reverted
  | .call i during next, s => do
    let (events, s) ← call i (exec during) s
    let (later, s) ← exec next s
    .ok (events ++ later, s)
  | attempt body next, s =>
    match exec body s with
    | .ok (events, s) => do
      let (later, s) ← exec next s
      .ok (events ++ later, s)
    | .error _ => exec next s

variable {call reverted}

/-- A relation that composes, and that each call keeps if the calls inside it do, holds between the
ends of all executions. -/
theorem exec_rel {R : σ → List ω → σ → Prop} (refl : ∀ s, R s [] s)
    (trans : ∀ {s s₁ s₂ events later}, R s events s₁ → R s₁ later s₂ → R s (events ++ later) s₂)
    (step : ∀ {i during s s' events},
      (∀ {s s' events}, during s = .ok (events, s') → R s events s') →
      call i during s = .ok (events, s') → R s events s')
    (calls : Calls ι) {s s' : σ} {events : List ω}
    (h : exec call reverted calls s = .ok (events, s')) : R s events s' := by
  induction calls generalizing s s' events with
  | done =>
    obtain ⟨rfl, rfl⟩ := by simpa [exec] using h
    exact refl s
  | revert => cases h
  | call i during next ihDuring ihNext =>
    simp only [exec, bind_eq_ok, Prod.exists, Except.ok.injEq, Prod.mk.injEq] at h
    obtain ⟨first, s₁, hcall, later, s₂, hnext, rfl, rfl⟩ := h
    exact trans (step ihDuring hcall) (ihNext hnext)
  | attempt body next ihBody ihNext =>
    unfold exec at h
    split at h
    · next first s₁ hbody =>
      simp only [bind_eq_ok, Prod.exists, Except.ok.injEq, Prod.mk.injEq] at h
      obtain ⟨later, s₂, hnext, rfl, rfl⟩ := h
      exact trans (ihBody hbody) (ihNext hnext)
    · exact ihNext h

end Calls

end Foundation
