import Fhevm.Foundation.Voting

/-!
# Components of a system

A system of contracts is a contract whose calls are calls of one of its components. What
a run of the system does to a component is a run of the component.

## Main definitions

* `Contract.onPart` — a call of a contract whose state is a part of a larger one.
* `Component` — a part of the state, and the call that a call of the system makes of it.
* `Component.ofPart` — the component of the calls on a part of the state.
* `Component.calls` — the run of the component in a run of the system.
* `Component.part_exec` — it leads to the part of the state.
* `Component.part_rel` — what its commits keep, a run of the system keeps.
* `Component.votes_calls` — its votes are among those of the system.
-/

namespace Foundation

open Contract

variable {ι σ ε ω κ τ ε' ω' ν ν' : Type*} {C : Contract ι σ ε ω} {D : Contract κ τ ε' ω'}

/-! ## Calls on a part of the state -/

section Parts

/-- What a call of `D` does where the state of `D` is a part of a larger one. -/
def Contract.onPart (D : Contract κ τ ε' ω') (k : κ) (t : τ) (error : ε' → ε) (output : ω' → ω)
    (put : τ → σ) : Except ε (ω × σ) :=
  match D.call k t with
  | .ok (o, t') => .ok (output o, put t')
  | .error e => .error (error e)

variable {i : ι} {s : σ} {k : κ} {t : τ} {error : ε' → ε} {output : ω' → ω} {put : τ → σ}

theorem Contract.onPart_eq_ok {o : ω} {s' : σ} : D.onPart k t error output put = .ok (o, s') ↔
    ∃ o' t', D.call k t = .ok (o', t') ∧ o = output o' ∧ s' = put t' := by
  unfold onPart
  cases D.call k t with
  | error e => simp
  | ok r => grind

theorem Contract.onPart_eq_error {e : ε} : D.onPart k t error output put = .error e ↔
    ∃ e', D.call k t = .error e' ∧ error e' = e := by
  unfold onPart
  cases D.call k t with
  | error e => simp
  | ok r => simp

theorem Contract.step_onPart {s' : σ} (h : C.call i s = D.onPart k t error output put)
    (hput : put t = s) (hs' : put (D.step k t) = s') : C.step i s = s' := by
  unfold onPart at h
  obtain ⟨e, he, hs⟩ | ⟨o, ho⟩ := step_cases k t (C := D)
  · rw [he] at h
    rw [step_of_error h, ← hs', hs, hput]
  · rw [ho] at h
    rw [step_of_ok h, hs']

theorem Contract.commits_onPart (h : C.call i s = D.onPart k t error output put) :
    C.Commits i s ↔ D.Commits k t := by
  unfold onPart at h
  unfold Commits
  rw [h]
  cases D.call k t with
  | error e => simp
  | ok r => simp

end Parts

/-! ## Components -/

/-- A component `D` of the system `C`. -/
structure Component (C : Contract ι σ ε ω) (D : Contract κ τ ε' ω') where
  part : σ → τ
  callOf : ι → σ → Option κ
  commits : ∀ i s k, callOf i s = some k → (C.Commits i s ↔ D.Commits k (part s))
  inside : ∀ i s k, callOf i s = some k → part (C.step i s) = D.step k (part s)
  outside : ∀ i s, callOf i s = none → part (C.step i s) = part s

namespace Component

/-- The component of the calls on a part of the state. -/
def ofPart (part : σ → τ) (callOf : ι → σ → Option κ)
    (onPart : ∀ i s k, callOf i s = some k → ∃ error output put,
      C.call i s = D.onPart k (part s) error output put ∧ put (part s) = s ∧ ∀ t, part (put t) = t)
    (outside : ∀ i s, callOf i s = none → part (C.step i s) = part s) : Component C D where
  part := part
  callOf := callOf
  commits i s k hk := by
    obtain ⟨error, output, put, hcall, -, -⟩ := onPart i s k hk
    exact commits_onPart hcall
  inside i s k hk := by
    obtain ⟨error, output, put, hcall, hput, hget⟩ := onPart i s k hk
    rw [step_onPart hcall hput rfl, hget]
  outside := outside

variable (P : Component C D) (s₀ : σ)

/-- The calls of the component in a run of the system. -/
def calls : List ι → List κ
  | [] => []
  | i :: past => (P.callOf i (C.exec s₀ past)).toList ++ calls past

variable {P s₀}

theorem calls_cons_some {i : ι} {past : List ι} {k : κ} (h : P.callOf i (C.exec s₀ past) = some k) :
    P.calls s₀ (i :: past) = k :: P.calls s₀ past := by
  rw [calls, h]
  rfl

theorem calls_cons_none {i : ι} {past : List ι} (h : P.callOf i (C.exec s₀ past) = none) :
    P.calls s₀ (i :: past) = P.calls s₀ past := by
  rw [calls, h]
  rfl

theorem part_exec (past : List ι) :
    P.part (C.exec s₀ past) = D.exec (P.part s₀) (P.calls s₀ past) := by
  induction past with
  | nil => rfl
  | cons i past ih =>
    cases h : P.callOf i (C.exec s₀ past) with
    | none => rw [calls_cons_none h, exec_cons, P.outside _ _ h, ih]
    | some k => rw [calls_cons_some h, exec_cons, exec_cons, P.inside _ _ k h, ih]

/-- At a call of the component the system is where the runs of the component lead to. -/
theorem part_exec_cons {i : ι} {past : List ι} {k : κ}
    (h : P.callOf i (C.exec s₀ past) = some k) :
    P.part (C.exec s₀ (i :: past)) = D.exec (P.part s₀) (k :: P.calls s₀ past) := by
  rw [part_exec, calls_cons_some h]

/-- Every call of the component was made by a call of the system, after the calls before it. -/
theorem ran_calls {run : List ι} {k : κ} {before : List κ} (h : Ran (P.calls s₀ run) k before) :
    ∃ i past, Ran run i past ∧ P.callOf i (C.exec s₀ past) = some k ∧
      P.calls s₀ past = before := by
  induction run with
  | nil => exact absurd h not_ran_nil
  | cons i past ih =>
    have hlater : Ran (P.calls s₀ past) k before → ∃ j earlier, Ran (i :: past) j earlier ∧
        P.callOf j (C.exec s₀ earlier) = some k ∧ P.calls s₀ earlier = before := by
      intro hk
      obtain ⟨j, earlier, hran, hcall⟩ := ih hk
      exact ⟨j, earlier, hran.tail, hcall⟩
    cases hcall : P.callOf i (C.exec s₀ past) with
    | none =>
      rw [calls_cons_none hcall] at h
      exact hlater h
    | some k' =>
      rw [calls_cons_some hcall] at h
      obtain ⟨rfl, rfl⟩ | h := ran_cons.mp h
      · exact ⟨i, past, Ran.head _ _, hcall, rfl⟩
      · exact hlater h

theorem mem_calls {run : List ι} {k : κ} (h : k ∈ P.calls s₀ run) :
    ∃ i past, Ran run i past ∧ P.callOf i (C.exec s₀ past) = some k := by
  obtain ⟨later, before, hsplit⟩ := List.append_of_mem h
  obtain ⟨i, past, hran, hcall, -⟩ := @ran_calls _ _ _ _ _ _ _ _ C D P s₀ _ _ _ ⟨later, hsplit.symm⟩
  exact ⟨i, past, hran, hcall⟩

/-- A reflexive and transitive relation that the commits of the component keep relates its states
at two times of a run of the system. -/
theorem part_rel (P : Component C D) {r : τ → τ → Prop} (refl : ∀ t, r t t)
    (trans : ∀ a b c, r a b → r b c → r a c)
    (keep : ∀ k t o t', D.call k t = .ok (o, t') → r t t') {past run : List ι}
    (h : past <:+ run) : r (P.part (C.exec s₀ past)) (P.part (C.exec s₀ run)) := by
  refine exec_rel (r := fun s s' => r (P.part s) (P.part s')) (fun _ => refl _)
    (fun _ _ _ => trans _ _ _) (fun i s o s' hcall => ?_) h
  rw [← step_of_ok hcall]
  cases hk : P.callOf i s with
  | none =>
    rw [P.outside _ _ hk]
    exact refl _
  | some k =>
    rw [P.inside _ _ k hk]
    obtain ⟨e, -, hs⟩ | ⟨o', ho⟩ := step_cases k (P.part s) (C := D)
    · rw [hs]
      exact refl _
    · exact keep k _ o' _ ho

/-- The votes of the component are the votes of the system that it takes part in. -/
theorem votes_calls (P : Component C D) (s₀ : σ) (cast : ι → σ → Option ν)
    (cast' : κ → τ → Option ν') {share : ν → Option ν'}
    (h : ∀ i s, ((P.callOf i s).bind fun k => cast' k (P.part s)) = (cast i s).bind share)
    (run : List ι) :
    D.votes (P.part s₀) cast' (P.calls s₀ run) = (C.votes s₀ cast run).filterMap share := by
  induction run with
  | nil => rfl
  | cons i past ih =>
    have hi := h i (C.exec s₀ past)
    have hshare : (cast i (C.exec s₀ past)).toList.filterMap share =
        ((cast i (C.exec s₀ past)).bind share).toList := by
      cases hc : cast i (C.exec s₀ past) with
      | none => rfl
      | some v => cases hs : share v <;> simp [hs]
    cases hcall : P.callOf i (C.exec s₀ past) with
    | none =>
      rw [hcall, Option.bind_none] at hi
      rw [calls_cons_none hcall, ih]
      by_cases hc : C.Commits i (C.exec s₀ past)
      · rw [votes_cons_of_commits hc, List.filterMap_append, hshare, ← hi, Option.toList_none,
          List.append_nil]
      · rw [votes_cons_of_not_commits hc]
    | some k =>
      rw [hcall, Option.bind_some] at hi
      have hcommits := P.commits i _ k hcall
      rw [P.part_exec] at hcommits hi
      rw [calls_cons_some hcall]
      by_cases hc : C.Commits i (C.exec s₀ past)
      · rw [votes_cons_of_commits hc, votes_cons_of_commits (hcommits.mp hc),
          List.filterMap_append, hshare, ← hi, ih]
      · rw [votes_cons_of_not_commits hc, votes_cons_of_not_commits (mt hcommits.mpr hc), ih]

end Component

end Foundation
