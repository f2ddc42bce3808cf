import Fhevm.Common.NonceManagedProvider

/-!
# The nonces that a provider hands out

As long as no call is bound to reset the nonce manager, every nonce up to the one handed out last is
taken by the node or held by a call, and there are no others. Two things break this: a call that
gives its nonce up without a reset, and a count that is received while a nonce above it is in use.

## Main definitions

* `SendStage.Doomed` — the call is bound to reset the nonce manager.
* `Covered`, `Bounded` — the nonces up to the last one are in use, and no others.
* `NoSlip` — the condition on a step.
* `in_step_of_run` — what the runs keep that meet it.
-/

namespace Fhevm

open Foundation

/-! ## Lists of calls -/

section Lists

variable {α : Type*} {l : List α} {i : ℕ} {a b : α} {p : α → Prop}

theorem exists_mem_set (h : ∃ x ∈ l, p x) (ha : l[i]? = some a) (hab : p a → p b) :
    ∃ x ∈ l.set i b, p x := by
  obtain ⟨x, hx, hp⟩ := h
  obtain ⟨j, hj⟩ := List.mem_iff_getElem?.mp hx
  by_cases hij : i = j
  · subst hij
    obtain rfl : a = x := Option.some.inj (ha.symm.trans hj)
    have hlt : i < l.length := (List.getElem?_eq_some_iff.mp ha).1
    exact ⟨b, List.mem_set hlt b, hab hp⟩
  · exact ⟨x, List.mem_iff_getElem?.mpr ⟨j, by rw [List.getElem?_set_ne hij, hj]⟩, hp⟩

theorem exists_mem_eraseIdx (h : ∃ x ∈ l, p x) (ha : l[i]? = some a) (hnot : ¬ p a) :
    ∃ x ∈ l.eraseIdx i, p x := by
  obtain ⟨x, hx, hp⟩ := h
  obtain ⟨j, hj⟩ := List.mem_iff_getElem?.mp hx
  refine ⟨x, List.mem_eraseIdx_iff_getElem?.mpr ⟨j, ?_, hj⟩, hp⟩
  rintro rfl
  obtain rfl : a = x := Option.some.inj (ha.symm.trans hj)
  exact hnot hp

theorem forall_mem_set (h : ∀ x ∈ l, p x) (hb : p b) : ∀ x ∈ l.set i b, p x := by
  intro x hx
  obtain hx | rfl := List.mem_or_eq_of_mem_set hx
  · exact h x hx
  · exact hb

theorem forall_mem_eraseIdx (h : ∀ x ∈ l, p x) : ∀ x ∈ l.eraseIdx i, p x :=
  fun x hx => h x (List.mem_of_mem_eraseIdx hx)

theorem forall_mem_append_singleton (h : ∀ x ∈ l, p x) (ha : p a) : ∀ x ∈ l ++ [a], p x := by
  intro x hx
  obtain hx | hx := List.mem_append.mp hx
  · exact h x hx
  · obtain rfl := List.mem_singleton.mp hx
    exact ha

theorem exists_mem_append_singleton (h : ∃ x ∈ l, p x) : ∃ x ∈ l ++ [a], p x :=
  h.imp fun _ hx => ⟨List.mem_append_left _ hx.1, hx.2⟩

end Lists

/-! ## The invariant -/

/-- The call has met an error or is going to, and will reset the nonce manager. -/
def SendStage.Doomed (stage : SendStage) : Prop := stage = .failed ∨ stage = .sent (some false)

instance : DecidablePred SendStage.Doomed := fun _ => inferInstanceAs (Decidable (_ ∨ _))

namespace ProviderState

/-- A call is bound to reset the nonce manager. -/
def WillReset (s : ProviderState) : Prop := ∃ call ∈ s.calls, call.stage.Doomed

def Holds (s : ProviderState) (nonce : ℕ) : Prop := ∃ call ∈ s.calls, call.nonce = some nonce

/-- The nonces up to `last` are taken by the node or held by a call. -/
def Covered (s : ProviderState) (last : ℕ) : Prop := ∀ n ≤ last, n ∈ s.taken ∨ s.Holds n

/-- No nonce above `last` is held, on its way or taken. -/
structure Bounded (s : ProviderState) (last : ℕ) : Prop where
  calls : ∀ call ∈ s.calls, ∀ n ∈ call.nonce, n ≤ last
  late : ∀ nonce ∈ s.late, ∀ n ∈ nonce, n ≤ last
  taken : ∀ n ∈ s.taken, n ≤ last

structure Sound (P : NonceManagedProvider) (s : ProviderState) : Prop where
  unset : P.setsNonce = false → s.nonceManager = none ∧ s.counting = none
  nonces : P.setsNonce = true → (∀ call ∈ s.calls, call.nonce ≠ none) ∧ ∀ nonce ∈ s.late, nonce ≠ none
  answered : ∀ call ∈ s.calls, call.stage = .sent (some true) → ∀ n ∈ call.nonce, n ∈ s.taken
  counted : ∀ function count, s.counting = some (function, some count) → ∀ n < count, n ∈ s.taken
  line : ∀ last, s.nonceManager = some last → s.WillReset ∨ (s.Covered last ∧ s.Bounded last)

/-- The condition on a step. A count is received only if no nonce above it is in use, and a call of
`send_transaction_sync` does not give up in between a nonce that nobody else uses, unless the nonce
manager is empty or about to be reset. -/
def NoSlip (s : ProviderState) : ProviderInput → Prop
  | .receiveCount => ∀ function count, s.counting = some (function, some count) →
    s.WillReset ∨ s.Bounded count
  | .failFill i => ∀ call, s.calls[i]? = some call → call.function = .sendTransactionSync →
    s.nonceManager = none ∨ s.WillReset ∨ ∀ n ∈ call.nonce, n ∈ s.taken ∨
      ∃ other ∈ s.calls.eraseIdx i, other.nonce = some n
  | _ => True

/-- A sound state in which no call is in progress is in step. -/
theorem Sound.inStep {P : NonceManagedProvider} {s : ProviderState} (h : s.Sound P)
    (hquiet : s.Quiet) : s.InStep := by
  intro last hlast
  have hnone : ∀ p : SendCall → Prop, ¬ ∃ call ∈ s.calls, p call := by simp [hquiet.1]
  obtain hreset | ⟨hcovered, hbounded⟩ := h.line last hlast
  · exact absurd hreset (hnone _)
  · symm
    apply transactionCount_eq
    · intro hmem
      exact absurd (hbounded.taken _ hmem) (by omega)
    · intro n hn
      exact (hcovered n (by omega)).resolve_right (hnone _)

/-! ## What a step keeps -/

section Steps

variable {P : NonceManagedProvider} {s s' : ProviderState} {i : ℕ} {call : SendCall}

theorem holds_set (hcall : s.calls[i]? = some call) {stage : SendStage} {n : ℕ} (h : s.Holds n) :
    (s.setStage i call stage).Holds n := exists_mem_set h hcall id

/-- A call comes to its next stage, and the node takes transactions. -/
theorem Sound.setStage (h : s.Sound P) (hcall : s.calls[i]? = some call) {stage : SendStage}
    {taken : Finset ℕ} {late : List (Option ℕ)} (hdoomed : call.stage.Doomed → stage.Doomed)
    (htaken : s.taken ⊆ taken)
    (hanswered : stage = .sent (some true) → ∀ n ∈ call.nonce, n ∈ taken)
    (hlate : ∀ nonce ∈ late, nonce ∈ s.late ∨ nonce = call.nonce)
    (hbounded : stage.Doomed ∨ ∀ last, s.nonceManager = some last → s.Bounded last →
      ∀ n ∈ taken, n ≤ last) :
    ({ s.setStage i call stage with taken, late } : ProviderState).Sound P where
  unset := h.unset
  nonces hsets := by
    obtain ⟨hcalls, hlates⟩ := h.nonces hsets
    have hnonce := hcalls call (List.mem_of_getElem? hcall)
    refine ⟨forall_mem_set hcalls hnonce, fun nonce hmem => ?_⟩
    obtain hmem | rfl := hlate nonce hmem
    · exact hlates nonce hmem
    · exact hnonce
  answered := forall_mem_set (fun c hc hstage n hn => htaken (h.answered c hc hstage n hn)) hanswered
  counted function count hcount n hn := htaken (h.counted function count hcount n hn)
  line last hlast := by
    by_cases hstage : stage.Doomed
    · have hlt : i < s.calls.length := (List.getElem?_eq_some_iff.mp hcall).1
      exact .inl ⟨{ call with stage }, List.mem_set hlt _, hstage⟩
    · refine (h.line last hlast).imp (fun hreset => exists_mem_set hreset hcall hdoomed) ?_
      rintro ⟨hcovered, hb⟩
      refine ⟨fun n hn => ?_, ?_, fun nonce hmem n hn => ?_, hbounded.resolve_left hstage last hlast hb⟩
      · exact (hcovered n hn).imp (fun hmem => htaken hmem) (holds_set hcall)
      · exact forall_mem_set hb.calls (hb.calls call (List.mem_of_getElem? hcall))
      · obtain hmem | rfl := hlate nonce hmem
        · exact hb.late nonce hmem n hn
        · exact hb.calls call (List.mem_of_getElem? hcall) n hn

/-- The node is asked, or answers, or the call that asked it ends. -/
theorem Sound.setCounting (h : s.Sound P) {counting : Option (SendFunction × Option ℕ)}
    (hunset : P.setsNonce = false → counting = none)
    (hcounted : ∀ function count, counting = some (function, some count) →
      ∀ n < count, n ∈ s.taken) : ({ s with counting } : ProviderState).Sound P where
  unset hsets := ⟨(h.unset hsets).1, hunset hsets⟩
  nonces := h.nonces
  answered := h.answered
  counted := hcounted
  line last hlast := (h.line last hlast).imp_right fun ⟨hcovered, hb⟩ =>
    ⟨hcovered, hb.calls, hb.late, hb.taken⟩

/-- A call with a new nonce starts. -/
theorem Sound.start (h : s.Sound P) (hsets : P.setsNonce = true) {function : SendFunction}
    {nonce : ℕ} (hline : s.WillReset ∨ (s.Bounded nonce ∧ ∀ n < nonce, n ∈ s.taken ∨ s.Holds n)) :
    ({ s with
      nonceManager := some nonce
      counting := none
      calls := s.calls ++ [⟨function, some nonce, .filling⟩] } : ProviderState).Sound P where
  unset hunset := by simp [hsets] at hunset
  nonces _ := by
    obtain ⟨hcalls, hlates⟩ := h.nonces hsets
    exact ⟨forall_mem_append_singleton hcalls (Option.some_ne_none _), hlates⟩
  answered := forall_mem_append_singleton h.answered nofun
  counted _ _ hcount := by cases hcount
  line last hlast := by
    obtain rfl := Option.some.inj hlast
    refine hline.imp exists_mem_append_singleton ?_
    rintro ⟨hb, hbelow⟩
    refine ⟨fun n hn => ?_, ?_, hb.late, hb.taken⟩
    · obtain hlt | rfl := Nat.lt_or_eq_of_le hn
      · exact (hbelow n hlt).imp_right exists_mem_append_singleton
      · exact .inr ⟨_, List.mem_append_right _ (List.mem_singleton_self _), rfl⟩
    · apply forall_mem_append_singleton hb.calls
      simp

/-- A call ends that is not bound to reset the nonce manager, and nobody misses its nonce. -/
theorem Sound.eraseCall (h : s.Sound P) (hcall : s.calls[i]? = some call)
    (hdoomed : ¬ call.stage.Doomed)
    (hnonce : s.nonceManager = none ∨ s.WillReset ∨ ∀ n ∈ call.nonce, n ∈ s.taken ∨
      ∃ other ∈ s.calls.eraseIdx i, other.nonce = some n) :
    ({ s with calls := s.calls.eraseIdx i } : ProviderState).Sound P where
  unset := h.unset
  nonces hsets := ⟨forall_mem_eraseIdx (h.nonces hsets).1, (h.nonces hsets).2⟩
  answered := forall_mem_eraseIdx h.answered
  counted := h.counted
  line last hlast := by
    have hkeep : s.WillReset → ∃ c ∈ s.calls.eraseIdx i, c.stage.Doomed :=
      fun hreset => exists_mem_eraseIdx hreset hcall hdoomed
    obtain hnone | hreset | hfree := hnonce
    · rw [show s.nonceManager = some last from hlast] at hnone
      cases hnone
    · exact .inl (hkeep hreset)
    · refine (h.line last hlast).imp hkeep ?_
      rintro ⟨hcovered, hb⟩
      refine ⟨fun n hn => ?_, forall_mem_eraseIdx hb.calls, hb.late, hb.taken⟩
      obtain hmem | hholds := hcovered n hn
      · exact .inl hmem
      · by_cases hn' : call.nonce = some n
        · exact hfree n hn'
        · exact .inr (exists_mem_eraseIdx hholds hcall hn')

theorem subset_takeNonce (taken : Finset ℕ) (nonce : Option ℕ) (takes : Bool) :
    taken ⊆ takeNonce taken nonce takes := by
  unfold takeNonce
  split_ifs
  · exact Finset.subset_insert _ _
  · exact subset_rfl

theorem forall_mem_takeNonce {taken : Finset ℕ} {nonce : Option ℕ} {takes : Bool} {last : ℕ}
    (hset : nonce ≠ none) (hnonce : ∀ n ∈ nonce, n ≤ last) (htaken : ∀ n ∈ taken, n ≤ last) :
    ∀ n ∈ takeNonce taken nonce takes, n ≤ last := by
  obtain ⟨m, rfl⟩ := Option.ne_none_iff_exists'.mp hset
  unfold takeNonce
  split_ifs
  · intro n hn
    obtain rfl | hn := Finset.mem_insert.mp hn
    · exact hnonce _ rfl
    · exact htaken n hn
  · exact htaken

/-- If the nonce manager is not empty, then the provider sets nonces. -/
theorem Sound.setsNonce (h : s.Sound P) {last : ℕ} (hlast : s.nonceManager = some last) :
    P.setsNonce = true := by
  by_contra hnot
  have hunset := h.unset (by simpa using hnot)
  rw [hlast] at hunset
  cases hunset.1

theorem sound_step {input : ProviderInput} (h : s.Sound P) (hslip : s.NoSlip input)
    (hs : s.step P input = some s') : s'.Sound P := by
  cases input with
  | getNextNonce function =>
    simp only [step, getNextNonce, Option.bind_eq_bind, Option.bind_eq_some_iff, Option.pure_def,
      Option.some.injEq, Option.guard_eq_some'] at hs
    obtain ⟨_, ⟨-, hsets, hcounting⟩, last, hlast, rfl⟩ := hs
    rw [hcounting]
    refine h.start hsets ((h.line last hlast).imp_right ?_)
    rintro ⟨hcovered, hb⟩
    refine ⟨⟨?_, ?_, ?_⟩, fun n hn => hcovered n (Nat.lt_succ_iff.mp hn)⟩
    · exact fun c hc n hn => Nat.le_succ_of_le (hb.calls c hc n hn)
    · exact fun nonce hmem n hn => Nat.le_succ_of_le (hb.late nonce hmem n hn)
    · exact fun n hn => Nat.le_succ_of_le (hb.taken n hn)
  | askCount function =>
    simp only [step, askCount, Option.bind_eq_bind, Option.bind_eq_some_iff, Option.pure_def,
      Option.some.injEq, Option.guard_eq_some'] at hs
    obtain ⟨_, ⟨-, hsets, -⟩, _, hnone, rfl⟩ := hs
    apply h.setCounting
    · simp [hsets]
    · simp
  | answerCount =>
    simp only [step, answerCount, Option.bind_eq_bind, Option.bind_eq_some_iff, Option.pure_def,
      Option.some.injEq, Option.guard_eq_some', Prod.exists] at hs
    obtain ⟨function, count, hcounting, _, rfl, rfl⟩ := hs
    apply h.setCounting
    · intro hunset
      rw [(h.unset hunset).2] at hcounting
      cases hcounting
    · intro _ _ hcount n hn
      cases hcount
      exact mem_of_lt_transactionCount hn
  | receiveCount =>
    simp only [step, receiveCount, Option.bind_eq_bind, Option.bind_eq_some_iff, Option.pure_def,
      Option.some.injEq, Prod.exists] at hs
    obtain ⟨function, count, hcounting, nonce, rfl, rfl⟩ := hs
    have hsets : P.setsNonce = true := by
      by_contra hnot
      rw [(h.unset (by simpa using hnot)).2] at hcounting
      cases hcounting
    refine h.start hsets ((hslip function nonce hcounting).imp_right fun hb => ⟨hb, ?_⟩)
    exact fun n hn => .inl (h.counted function nonce hcounting n hn)
  | failCount =>
    simp only [step, failCount, Option.bind_eq_bind, Option.bind_eq_some_iff, Option.pure_def,
      Option.some.injEq] at hs
    obtain ⟨_, -, rfl⟩ := hs
    apply h.setCounting <;> simp
  | skipNonce function =>
    simp only [step, skipNonce, Option.bind_eq_bind, Option.bind_eq_some_iff, Option.pure_def,
      Option.some.injEq, Option.guard_eq_some'] at hs
    obtain ⟨_, ⟨-, hunset⟩, rfl⟩ := hs
    refine ⟨h.unset, fun hsets => ?_, forall_mem_append_singleton h.answered nofun, h.counted,
      fun last hlast => ?_⟩
    · simp [hsets] at hunset
    · rw [(h.unset hunset).1] at hlast
      cases hlast
  | failFill i =>
    simp only [step, failFill, Option.bind_eq_bind, Option.bind_eq_some_iff, Option.pure_def,
      Option.guard_eq_some'] at hs
    obtain ⟨call, hcall, _, hstage, hs⟩ := hs
    have hdoomed : ¬ call.stage.Doomed := by simp [hstage, SendStage.Doomed]
    split at hs
    · next hsync =>
      obtain rfl := Option.some.inj hs
      exact h.eraseCall hcall hdoomed (hslip call hcall hsync)
    · obtain rfl := Option.some.inj hs
      exact h.setStage hcall (fun _ => .inl rfl) subset_rfl nofun (fun _ hn => .inl hn)
        (.inl (.inl rfl))
  | send i =>
    simp only [step, send, Option.bind_eq_bind, Option.bind_eq_some_iff, Option.pure_def,
      Option.some.injEq, Option.guard_eq_some'] at hs
    obtain ⟨call, hcall, _, hstage, rfl⟩ := hs
    refine h.setStage hcall ?_ subset_rfl nofun (fun _ hn => .inl hn)
      (.inr fun _ _ hb => hb.taken)
    simp [hstage, SendStage.Doomed]
  | process i takes =>
    simp only [step, process, Option.bind_eq_bind, Option.bind_eq_some_iff, Option.pure_def,
      Option.some.injEq, Option.guard_eq_some'] at hs
    obtain ⟨call, hcall, _, hstage, rfl⟩ := hs
    have hmem := List.mem_of_getElem? hcall
    refine h.setStage hcall ?_ (subset_takeNonce _ _ _) ?_ (fun _ hn => .inl hn)
      (.inr fun last hlast hb => ?_)
    · simp [hstage, SendStage.Doomed]
    · intro htakes n hn
      obtain rfl : takes = true := by simpa using htakes
      simp [takeNonce, Option.mem_def.mp hn]
    · have hnonce := (h.nonces (h.setsNonce hlast)).1 call hmem
      exact forall_mem_takeNonce hnonce (hb.calls call hmem) hb.taken
  | processLate j takes =>
    simp only [step, processLate, Option.bind_eq_bind, Option.bind_eq_some_iff, Option.pure_def,
      Option.some.injEq] at hs
    obtain ⟨nonce, hnonce, rfl⟩ := hs
    have hmem := List.mem_of_getElem? hnonce
    have hsub := subset_takeNonce s.taken nonce takes
    refine ⟨h.unset, fun hsets => ?_, ?_, ?_, fun last hlast => ?_⟩
    · exact ⟨(h.nonces hsets).1, forall_mem_eraseIdx (h.nonces hsets).2⟩
    · exact fun c hc hstage n hn => hsub (h.answered c hc hstage n hn)
    · exact fun function count hcount n hn => hsub (h.counted function count hcount n hn)
    · refine (h.line last hlast).imp_right ?_
      rintro ⟨hcovered, hb⟩
      refine ⟨fun n hn => (hcovered n hn).imp_left fun hn => hsub hn, hb.calls,
        forall_mem_eraseIdx hb.late, ?_⟩
      exact forall_mem_takeNonce ((h.nonces (h.setsNonce hlast)).2 nonce hmem)
        (hb.late nonce hmem) hb.taken
  | succeed i =>
    simp only [step, succeed, Option.bind_eq_bind, Option.bind_eq_some_iff, Option.pure_def,
      Option.some.injEq, Option.guard_eq_some'] at hs
    obtain ⟨call, hcall, _, hstage, rfl⟩ := hs
    refine h.eraseCall hcall ?_ (.inr (.inr fun n hn => .inl ?_))
    · simp [hstage, SendStage.Doomed]
    · exact h.answered call (List.mem_of_getElem? hcall) hstage n hn
  | fail i arrives =>
    simp only [step, fail, Option.bind_eq_bind, Option.bind_eq_some_iff, Option.pure_def] at hs
    obtain ⟨call, hcall, hs⟩ := hs
    split at hs
    · obtain rfl := Option.some.inj hs
      refine h.setStage hcall (fun _ => .inl rfl) subset_rfl nofun (fun nonce hn => ?_)
        (.inl (.inl rfl))
      split_ifs at hn
      · simpa using hn
      · exact .inl hn
    · cases hs
  | reset i =>
    simp only [step, reset, Option.bind_eq_bind, Option.bind_eq_some_iff, Option.pure_def,
      Option.some.injEq, Option.guard_eq_some'] at hs
    obtain ⟨call, hcall, _, ⟨-, hcounting⟩, rfl⟩ := hs
    exact ⟨fun hunset => ⟨rfl, hcounting⟩,
      fun hsets => ⟨forall_mem_eraseIdx (h.nonces hsets).1, (h.nonces hsets).2⟩,
      forall_mem_eraseIdx h.answered, h.counted, fun _ hlast => nomatch hlast⟩

end Steps

end ProviderState

end Fhevm
