import Fhevm.Common.NonceInvariant

/-!
# Where the nonces of a provider go wrong

The runs whose steps all meet the condition stay in step with the node, and a step that does not
meet it is the beginning of a run that leaves the provider out of step: the calls that are in
progress succeed, and a few more that succeed too get to the nonce that is missing or used twice.

## Main definitions

* `ProviderState.Leads` — a state is reached from another.
* `finish_calls`, `finish_late` — the calls in progress and the late transactions succeed.
* `nonces_in_step` — the condition is sufficient, and no step can do without it.
-/

namespace Fhevm

open Foundation

namespace ProviderState

/-! ## Continued runs -/

def Leads (P : NonceManagedProvider) : ProviderState → ProviderState → Prop :=
  Relation.ReflTransGen fun s t => ∃ input, s.step P input = some t

section Leads

variable {P : NonceManagedProvider} {s t u : ProviderState}

theorem Leads.head (input : ProviderInput) (h : s.step P input = some t) (h' : Leads P t u) :
    Leads P s u :=
  Relation.ReflTransGen.head ⟨input, h⟩ h'

theorem run_of_leads {taken : Finset ℕ} {past : List ProviderInput}
    (hrun : (provider P taken).Run (fun _ _ => True) past s) (h : Leads P s t) :
    ∃ later, (provider P taken).Run (fun _ _ => True) (later ++ past) t := by
  induction h with
  | refl => exact ⟨[], hrun⟩
  | tail _ hstep ih =>
    obtain ⟨later, hlater⟩ := ih
    obtain ⟨input, hinput⟩ := hstep
    exact ⟨input :: later, .step hlater trivial hinput⟩

/-- The first call succeeds. -/
theorem finish_call {call : SendCall} {rest : List SendCall} (hcalls : s.calls = call :: rest)
    (hdoomed : ¬ call.stage.Doomed) {n : ℕ} (hnonce : call.nonce = some n)
    (hanswered : call.stage = .sent (some true) → n ∈ s.taken) :
    Leads P s { s with calls := rest, taken := insert n s.taken } := by
  obtain ⟨nonceManager, counting, calls, late, taken⟩ := s
  obtain ⟨function, nonce, stage⟩ := call
  subst hcalls hnonce
  have hsent : Leads P
      ⟨nonceManager, counting, ⟨function, some n, .sent none⟩ :: rest, late, taken⟩
      ⟨nonceManager, counting, rest, late, insert n taken⟩ :=
    .head (.process 0 true) rfl (.head (.succeed 0) rfl .refl)
  cases stage with
  | filling => exact .head (.send 0) rfl hsent
  | sent answer =>
    match answer with
    | none => exact hsent
    | some true =>
      rw [Finset.insert_eq_of_mem (hanswered rfl)]
      exact .head (.succeed 0) rfl .refl
    | some false => exact absurd (.inr rfl) hdoomed
  | failed => exact absurd (.inl rfl) hdoomed

/-- The calls in progress succeed one after the other. -/
theorem finish_calls (hnonces : ∀ call ∈ s.calls, call.nonce ≠ none)
    (hanswered : ∀ call ∈ s.calls, call.stage = .sent (some true) → ∀ n ∈ call.nonce, n ∈ s.taken)
    (hnot : ¬ s.WillReset) :
    ∃ taken, Leads P s { s with calls := [], taken } ∧
      ∀ n, n ∈ taken ↔ n ∈ s.taken ∨ s.Holds n := by
  generalize hcalls : s.calls = calls
  induction calls generalizing s with
  | nil =>
    refine ⟨s.taken, ?_, by simp [Holds, hcalls]⟩
    rw [← hcalls]
    exact .refl
  | cons call rest ih =>
    have hmem : call ∈ s.calls := hcalls ▸ List.mem_cons_self
    have htail : ∀ c ∈ rest, c ∈ s.calls := fun c hc => hcalls ▸ List.mem_cons_of_mem _ hc
    obtain ⟨n, hn⟩ := Option.ne_none_iff_exists'.mp (hnonces call hmem)
    have hfirst : Leads P s { s with calls := rest, taken := insert n s.taken } :=
      finish_call hcalls (fun hd => hnot ⟨call, hmem, hd⟩) hn
        fun hstage => hanswered call hmem hstage n hn
    obtain ⟨taken, hrest, htaken⟩ := ih (s := { s with calls := rest, taken := insert n s.taken })
      (fun c hc => hnonces c (htail c hc))
      (fun c hc hstage m hm => Finset.mem_insert_of_mem (hanswered c (htail c hc) hstage m hm))
      (fun ⟨c, hc, hd⟩ => hnot ⟨c, htail c hc, hd⟩) rfl
    refine ⟨taken, hfirst.trans hrest, fun m => (htaken m).trans ?_⟩
    simp only [Finset.mem_insert, Holds, hcalls, List.mem_cons, exists_eq_or_imp, hn,
      Option.some.injEq]
    grind

/-- The transactions on their way are taken one after the other. -/
theorem finish_late (hlate : ∀ nonce ∈ s.late, nonce ≠ none) :
    ∃ taken, Leads P s { s with late := [], taken } ∧
      ∀ n, n ∈ taken ↔ n ∈ s.taken ∨ some n ∈ s.late := by
  generalize hlates : s.late = late
  induction late generalizing s with
  | nil =>
    refine ⟨s.taken, ?_, by simp⟩
    rw [← hlates]
    exact .refl
  | cons nonce rest ih =>
    have hmem : nonce ∈ s.late := hlates ▸ List.mem_cons_self
    obtain ⟨n, rfl⟩ := Option.ne_none_iff_exists'.mp (hlate nonce hmem)
    have hfirst : s.step P (.processLate 0 true) =
        some { s with late := rest, taken := insert n s.taken } := by
      simp [step, processLate, hlates, takeNonce]
    obtain ⟨taken, hrest, htaken⟩ := ih (s := { s with late := rest, taken := insert n s.taken })
      (fun nonce hn => hlate nonce (hlates ▸ List.mem_cons_of_mem _ hn)) rfl
    refine ⟨taken, .head _ hfirst hrest, fun m => (htaken m).trans ?_⟩
    simp only [Finset.mem_insert, List.mem_cons, Option.some.injEq]
    tauto

/-- A provider that comes to a nonce that is taken is out of step then, if not before. -/
theorem out_of_step_of_mem {function : SendFunction} (hoffers : P.Offers function = true)
    (hsets : P.setsNonce = true) {late : List (Option ℕ)} {n : ℕ} (d : ℕ) {last : ℕ}
    {taken : Finset ℕ} (hn : n ∈ taken) (hd : n = last + d + 1) :
    ∃ t, Leads P ⟨some last, none, [], late, taken⟩ t ∧ t.Quiet ∧ ¬ t.InStep := by
  induction d generalizing last taken with
  | zero =>
    refine ⟨_, .refl, ⟨rfl, rfl⟩, fun hin => ?_⟩
    have hcount : last + 1 = transactionCount taken := hin last rfl
    exact transactionCount_notMem taken (hcount ▸ hd ▸ hn)
  | succ d ih =>
    obtain ⟨t, ht, hquiet, hout⟩ := @ih (last + 1) (insert (last + 1) taken)
      (Finset.mem_insert_of_mem hn) (by omega)
    have hfinish : Leads P
        ⟨some (last + 1), none, [⟨function, some (last + 1), .filling⟩], late, taken⟩
        ⟨some (last + 1), none, [], late, insert (last + 1) taken⟩ :=
      finish_call rfl (by simp [SendStage.Doomed]) rfl nofun
    refine ⟨t, .head (.getNextNonce function) ?_ (hfinish.trans ht), hquiet, hout⟩
    simp [step, getNextNonce, hoffers, hsets]

/-- A call that asks the node may meet an error. -/
theorem leads_failCount (s : ProviderState) : Leads P s { s with counting := none } := by
  obtain ⟨nonceManager, counting, calls, late, taken⟩ := s
  cases counting with
  | none => exact .refl
  | some counting => exact .head .failCount rfl .refl

theorem exists_of_not_bounded {last : ℕ} (h : ¬ s.Bounded last) :
    ∃ n, last < n ∧ (n ∈ s.taken ∨ s.Holds n ∨ some n ∈ s.late) := by
  by_contra hnone
  push Not at hnone
  refine h ⟨fun call hcall n hn => ?_, fun nonce hmem n hn => ?_, fun n hn => ?_⟩
  · by_contra hlt
    exact (hnone n (by omega)).2.1 ⟨call, hcall, hn⟩
  · by_contra hlt
    exact (hnone n (by omega)).2.2 (hn ▸ hmem)
  · by_contra hlt
    exact (hnone n (by omega)).1 hn

theorem leads_of_not_bounded (hsets : P.setsNonce = true)
    (hcalls : ∀ call ∈ s.calls, call.nonce ≠ none) (hlates : ∀ nonce ∈ s.late, nonce ≠ none)
    (hanswered : ∀ call ∈ s.calls, call.stage = .sent (some true) → ∀ n ∈ call.nonce, n ∈ s.taken)
    (hnot : ¬ s.WillReset) {last : ℕ} (hlast : s.nonceManager = some last)
    (hcounting : s.counting = none) (hbounded : ¬ s.Bounded last) :
    ∃ t, Leads P s t ∧ t.Quiet ∧ ¬ t.InStep := by
  obtain ⟨n, hn, hused⟩ := exists_of_not_bounded hbounded
  obtain ⟨taken, hfinish, htaken⟩ := finish_calls (P := P) hcalls hanswered hnot
  obtain ⟨taken', hfinish', htaken'⟩ :=
    finish_late (P := P) (s := { s with calls := [], taken }) hlates
  have hmem : n ∈ taken' := by
    rw [htaken', htaken]
    tauto
  have hoffers : P.Offers .sendTransaction = true := by cases P <;> rfl
  obtain ⟨t, ht, hquiet, hout⟩ :=
    @out_of_step_of_mem P _ hoffers hsets [] n (n - last - 1) last taken' hmem (by omega)
  refine ⟨t, hfinish.trans (hfinish'.trans ?_), hquiet, hout⟩
  rw [hlast, hcounting]
  exact ht

/-- The calls that are left succeed, and the nonce that was given up is missing. -/
theorem leads_of_given_up (hcalls : ∀ call ∈ s.calls, call.nonce ≠ none)
    (hanswered : ∀ call ∈ s.calls, call.stage = .sent (some true) → ∀ n ∈ call.nonce, n ∈ s.taken)
    (hnot : ¬ s.WillReset) {last n : ℕ} (hlast : s.nonceManager = some last) (hn : n ≤ last)
    (htaken : n ∉ s.taken) (hholds : ¬ s.Holds n) : ∃ t, Leads P s t ∧ t.Quiet ∧ ¬ t.InStep := by
  obtain ⟨taken, hfinish, htaken'⟩ := finish_calls (P := P) hcalls hanswered hnot
  refine ⟨_, hfinish.trans (leads_failCount _), ⟨rfl, rfl⟩, fun hin => ?_⟩
  have hcount : last + 1 = transactionCount taken := hin last hlast
  have hmem : n ∈ taken := mem_of_lt_transactionCount (by omega)
  rw [htaken'] at hmem
  tauto

/-- A step that does not meet the condition can be the beginning of a run that gets out of step. -/
theorem leads_out_of_step {input : ProviderInput} (h : s.Sound P) (hslip : ¬ s.NoSlip input)
    (hs : s.step P input = some t) : ∃ u, Leads P t u ∧ u.Quiet ∧ ¬ u.InStep := by
  cases input with
  | receiveCount =>
    simp only [step, receiveCount, Option.bind_eq_bind, Option.bind_eq_some_iff, Option.pure_def,
      Option.some.injEq, Prod.exists] at hs
    obtain ⟨function, count, hcounting, nonce, rfl, rfl⟩ := hs
    have hsets : P.setsNonce = true := by
      by_contra hnot
      rw [(h.unset (by simpa using hnot)).2] at hcounting
      cases hcounting
    have hmeets : s.NoSlip .receiveCount ↔ s.WillReset ∨ s.Bounded nonce := by
      simp [NoSlip, hcounting]
    rw [hmeets] at hslip
    push Not at hslip
    obtain ⟨hnot, hbounded⟩ := hslip
    refine leads_of_not_bounded hsets ?_ (h.nonces hsets).2 ?_ ?_ rfl rfl ?_
    · exact forall_mem_append_singleton (h.nonces hsets).1 (Option.some_ne_none _)
    · exact forall_mem_append_singleton h.answered (by rintro ⟨⟩)
    · rintro ⟨call, hcall, hdoomed⟩
      obtain hcall | hcall := List.mem_append.mp hcall
      · exact hnot ⟨call, hcall, hdoomed⟩
      · obtain rfl := List.mem_singleton.mp hcall
        simp [SendStage.Doomed] at hdoomed
    · intro hb
      exact hbounded ⟨fun call hcall => hb.calls call (List.mem_append_left _ hcall), hb.late, hb.taken⟩
  | failFill i =>
    simp only [step, failFill, Option.bind_eq_bind, Option.bind_eq_some_iff, Option.pure_def,
      Option.guard_eq_some'] at hs
    obtain ⟨call, hcall, _, hstage, hs⟩ := hs
    simp only [NoSlip] at hslip
    push Not at hslip
    obtain ⟨call', hcall', hsync, hmanager, hnot, n, hn, htaken, hother⟩ := hslip
    obtain rfl : call = call' := Option.some.inj (hcall.symm.trans hcall')
    rw [hsync] at hs
    obtain rfl := Option.some.inj hs
    obtain ⟨last, hlast⟩ := Option.ne_none_iff_exists'.mp hmanager
    obtain ⟨-, hb⟩ := (h.line last hlast).resolve_left hnot
    refine leads_of_given_up (forall_mem_eraseIdx (h.nonces (h.setsNonce hlast)).1)
      (forall_mem_eraseIdx h.answered) ?_ hlast (hb.calls call (List.mem_of_getElem? hcall) n hn)
      htaken ?_
    · rintro ⟨c, hc, hdoomed⟩
      exact hnot ⟨c, List.mem_of_mem_eraseIdx hc, hdoomed⟩
    · rintro ⟨c, hc, hc'⟩
      exact hother c hc hc'
  | _ => exact absurd trivial hslip

end Leads

theorem sound_of_run {P : NonceManagedProvider} {taken : Finset ℕ} {past : List ProviderInput}
    {s : ProviderState} (h : (provider P taken).Run NoSlip past s) : s.Sound P := by
  apply h.invariant (P := fun _ s => s.Sound P)
  · refine ⟨fun _ => ⟨rfl, rfl⟩, fun _ => ⟨?_, ?_⟩, ?_, fun _ _ hcount => ?_, fun _ hlast => ?_⟩
    · exact List.forall_mem_nil _
    · exact List.forall_mem_nil _
    · exact List.forall_mem_nil _
    · cases hcount
    · cases hlast
  · exact fun _ _ _ _ _ hsound hslip hs => sound_step hsound hslip hs

/-- A provider whose steps all meet the condition is in step whenever no call is in progress. Each
step that does not meet it can lead to a state in which no call is in progress and the provider is
out of step. -/
theorem nonces_in_step (P : NonceManagedProvider) (taken : Finset ℕ) {past : List ProviderInput}
    {s : ProviderState} (h : (provider P taken).Run NoSlip past s) :
    (s.Quiet → s.InStep) ∧
      ∀ input s', s.step P input = some s' → ¬ s.NoSlip input →
        ∃ later t, (provider P taken).Run (fun _ _ => True) (later ++ input :: past) t ∧
          t.Quiet ∧ ¬ t.InStep := by
  have hsound := sound_of_run h
  refine ⟨hsound.inStep, fun input s' hs hslip => ?_⟩
  obtain ⟨t, ht, hquiet, hout⟩ := leads_out_of_step hsound hslip hs
  have hrun : (provider P taken).Run (fun _ _ => True) (input :: past) s' :=
    .step (h.mono fun _ _ _ => trivial) trivial hs
  obtain ⟨later, hlater⟩ := run_of_leads hrun ht
  exact ⟨later, t, hlater, hquiet, hout⟩

/-! ## Samples -/

/-- One call sends a transaction. -/
def sampleSend (function : SendFunction) : List ProviderInput :=
  [.succeed 0, .process 0 true, .send 0, .receiveCount, .answerCount, .askCount function]

theorem sampleSend_in_step : ∃ s, (provider .kmsConnector ∅).Run NoSlip
    (sampleSend .sendTransactionSync) s ∧ s.nonceManager = some 0 ∧ s.Quiet ∧ s.InStep := by
  have hcount : transactionCount ∅ = 0 := by decide +kernel
  have hask : (provider .kmsConnector ∅).Run NoSlip [.answerCount, .askCount .sendTransactionSync]
      ⟨none, some (.sendTransactionSync, some 0), [], [], ∅⟩ :=
    .step (.step .start trivial rfl) trivial (by simp [provider, step, answerCount, hcount])
  have hrun : (provider .kmsConnector ∅).Run NoSlip (sampleSend .sendTransactionSync)
      ⟨some 0, none, [], [], insert 0 ∅⟩ := by
    refine .step (.step (.step (.step hask ?_ rfl) trivial rfl) trivial rfl) trivial rfl
    intro function count hcounting
    obtain ⟨rfl, hcount'⟩ := Prod.mk.inj (Option.some.inj hcounting)
    exact .inr ⟨by simp, by simp, by simp⟩
  exact ⟨_, hrun, rfl, ⟨rfl, rfl⟩, (nonces_in_step .kmsConnector ∅ hrun).1 ⟨rfl, rfl⟩⟩

/-- The fees of a transaction cannot be filled in. -/
def sampleFailedFill : List ProviderInput :=
  [.failFill 0, .receiveCount, .answerCount, .askCount .sendTransactionSync]

/-- A transaction does not get to the node, and its call resets the nonce manager while another call
still holds the next nonce. A third call asks the node then, and both succeed. -/
def sampleRace : List ProviderInput :=
  [.succeed 0, .process 0 true, .send 0, .succeed 1, .process 1 true, .send 1, .receiveCount,
    .answerCount, .askCount .sendTransaction, .reset 0, .fail 0 false, .send 0,
    .getNextNonce .sendTransaction, .receiveCount, .answerCount, .askCount .sendTransaction]

instance : DecidableRel fun (_ : ProviderState) (_ : ProviderInput) => True :=
  fun _ _ => instDecidableTrue

theorem out_of_step_of_replay {P : NonceManagedProvider} {past : List ProviderInput}
    (h : (((provider P ∅).replay (fun _ _ => True) past).map fun s => (decide s.Quiet,
      s.nonceManager.all fun nonce => nonce + 1 = transactionCount s.taken)) =
        some (true, false)) :
    ¬ ∀ s, (provider P ∅).Run (fun _ _ => True) past s → s.Quiet → s.InStep := by
  intro hall
  obtain ⟨s, hs, hout⟩ := Option.map_eq_some_iff.mp h
  obtain ⟨hquiet, hnot⟩ := Prod.mk.inj hout
  have hin := hall s (System.run_of_replay hs) (of_decide_eq_true hquiet)
  have hyes : (s.nonceManager.all fun nonce => nonce + 1 = transactionCount s.taken) = true := by
    cases hlast : s.nonceManager with
    | none => rfl
    | some last => simpa using hin last hlast
  rw [hyes] at hnot
  cases hnot

/-- The two ways out of step. The second one is there for both providers. -/
theorem samples_out_of_step :
    (¬ ∀ s, (provider .kmsConnector ∅).Run (fun _ _ => True) sampleFailedFill s →
      s.Quiet → s.InStep) ∧
    (¬ ∀ s, (provider .kmsConnector ∅).Run (fun _ _ => True) sampleRace s →
      s.Quiet → s.InStep) ∧
    ¬ ∀ s, (provider (.coprocessor (some 1)) ∅).Run (fun _ _ => True) sampleRace s →
      s.Quiet → s.InStep :=
  ⟨out_of_step_of_replay (by decide +kernel), out_of_step_of_replay (by decide +kernel),
    out_of_step_of_replay (by decide +kernel)⟩

end ProviderState

end Fhevm
