import Fhevm.Gateway.Gateway

/-!
# Reports behind what is allowed

A key is allowed when the reports under it meet the threshold. Each was sent by a coprocessor that
was registered at its time, and no coprocessor is counted twice under a key. So behind a key that is
allowed there is a report of a coprocessor that follows its code, if those that do not are too few.

## Main definitions

* `ReportedBy` — a coprocessor has reported under a key, while it was registered.
* `allowed_of_quorum` — the quorum behind a key that is allowed.
* `FewDeviate` — at no time do the coprocessors that deviate meet the threshold.
* `exists_honest_report` — one of the quorum does not deviate.
-/

namespace Fhevm.Gateway

open Foundation Contract Host

/-! ## The reports under a key -/

section Allows

variable {D : GatewayDeployment} {calls : List (GatewayTx × AllowCall)} {key : Bytes32}

theorem exists_deciding_report (h : (allowsAfter D calls).isAllowed key = true) :
    ∃ i past, Ran calls i past ∧ (allows D).Commits i (allowsAfter D past) ∧
      i.2.target.key D = key ∧ i.1.config.coprocessorThreshold ≤
        ((allowsAfter D (i :: past)).allowConsensusTxSenders key).length := by
  have hset : ∀ i s, (allows D).Commits i s → (((allows D).step i s).isAllowed key = true ↔
      s.isAllowed key = true ∨ (DecidesAllow D i s ∧ i.2.target.key D = key)) := by
    intro i s hc
    rw [(allow_commits hc).2.2, isAllowed_afterAllow]
  have hinit : ¬ MultichainACLAllows.init.isAllowed key = true := by
    simp [MultichainACLAllows.init]
  obtain ⟨i, past, hran, hc, hd, rfl⟩ :=
    (@holds_iff _ _ _ _ (allows D) .init (fun s => s.isAllowed key = true)
      (fun i s => DecidesAllow D i s ∧ i.2.target.key D = key) hinit hset calls).mp h
  have hstep : allowsAfter D (i :: past) = (allowsAfter D past).afterReport D i :=
    (allow_commits hc).2.2
  refine ⟨i, past, hran, hc, rfl, ?_⟩
  rw [← counters_allowsAfter, hstep, counters_afterAllow, Function.update_self]
  exact hd.2

theorem nodup_allowConsensusTxSenders :
    ((allowsAfter D calls).allowConsensusTxSenders key).Nodup := by
  rw [senders_allowsAfter]
  exact allowSenders_nodup key

/-- Each of the senders has made a report under the key that was accepted. -/
theorem exists_report_of_mem {a : Address}
    (h : a ∈ (allowsAfter D calls).allowConsensusTxSenders key) :
    ∃ i past, Ran calls i past ∧ i.1.sender = a ∧ i.2.target.key D = key ∧
      i.1.config.coprocessors.isTxSender a = true := by
  rw [senders_allowsAfter] at h
  obtain ⟨v, hv, rfl⟩ := List.mem_map.mp h
  obtain ⟨hv, hkey⟩ := List.mem_filter.mp hv
  obtain ⟨i, past, hran, hc, hcast⟩ := mem_votes.mp hv
  cases hcast
  exact ⟨i, past, hran, rfl, by simpa using hkey, (allow_commits hc).1⟩

end Allows

/-! ## Runs of the gateway -/

section Runs

variable (G : GatewayChain) (owner : Address)

/-- The coprocessor has reported something under the key while it was registered. -/
def ReportedBy (calls : List (Address × GatewayCall)) (key : Bytes32) (a : Address) : Prop :=
  ∃ report past, Ran calls (a, .allow report) past ∧
    report.target.key G.toGatewayDeployment = key ∧
      (gatewayAfter G owner past).config.coprocessors.isTxSender a = true

/-- At no time do the coprocessors that deviate and have been registered so far meet the
threshold. -/
def FewDeviate (honest : Address → Prop) (calls : List (Address × GatewayCall)) : Prop :=
  ∀ past, past <:+ calls → ∀ deviating : Finset Address, deviating.Nonempty →
    (∀ a ∈ deviating, ¬ honest a ∧ ∃ before, before <:+ past ∧
      (gatewayAfter G owner before).config.coprocessors.isTxSender a = true) →
    deviating.card < (gatewayAfter G owner past).config.coprocessorThreshold

variable {G owner} {calls : List (Address × GatewayCall)} {key : Bytes32}

/-- A report to the contract is one that the gateway was sent. -/
theorem ran_of_allowsPart {i : GatewayTx × AllowCall} {before : List (GatewayTx × AllowCall)}
    (h : Ran ((allowsPart G).calls (.init owner) calls) i before) :
    ∃ past, Ran calls (i.1.sender, .allow i.2) past ∧
      i.1.config = (gatewayAfter G owner past).config ∧
        (allowsPart G).calls (.init owner) past = before ∧
          (allowsPart G).calls (.init owner) ((i.1.sender, .allow i.2) :: past) =
            i :: before := by
  obtain ⟨⟨sender, call⟩, past, hran, hcall, rfl⟩ := Component.ran_calls h
  cases call <;> cases hcall
  exact ⟨past, hran, rfl, rfl, rfl⟩

/-- A quorum of distinct coprocessors has reported under a key that is allowed. -/
theorem allowed_of_quorum (h : (gatewayAfter G owner calls).allows.isAllowed key = true) :
    ∃ past senders, past <:+ calls ∧ Finset.Nonempty senders ∧
      (gatewayAfter G owner past).config.coprocessorThreshold ≤ senders.card ∧
        ∀ a ∈ senders, ReportedBy G owner calls key a ∧ ∃ before, before <:+ past ∧
          (gatewayAfter G owner before).config.coprocessors.isTxSender a = true := by
  have hpart : (gatewayAfter G owner calls).allows =
      allowsAfter G.toGatewayDeployment ((allowsPart G).calls (.init owner) calls) :=
    (allowsPart G).part_exec calls
  rw [hpart] at h
  obtain ⟨i, before, hran, hc, hkey, hquorum⟩ := exists_deciding_report h
  obtain ⟨past, hpast, hconfig, hbefore, hcalls⟩ := ran_of_allowsPart hran
  -- everyone who is counted has reported by then
  have hcounted : ∀ a ∈ (allowsAfter G.toGatewayDeployment (i :: before)).allowConsensusTxSenders
      key, ReportedBy G owner calls key a ∧ ∃ earlier, earlier <:+ past ∧
        (gatewayAfter G owner earlier).config.coprocessors.isTxSender a = true := by
    intro a ha
    obtain ⟨j, jbefore, hjran, rfl, hjkey, hregistered⟩ := exists_report_of_mem ha
    rw [← hcalls] at hjran
    obtain ⟨earlier, hearlier, hjconfig, -, -⟩ := ran_of_allowsPart hjran
    rw [hjconfig] at hregistered
    refine ⟨⟨j.2, earlier, hearlier.of_suffix hpast, hjkey, hregistered⟩, earlier, ?_,
      hregistered⟩
    obtain ⟨-, rfl⟩ | hlater := ran_cons.mp hearlier
    · exact List.suffix_rfl
    · exact hlater.past_suffix
  refine ⟨past, ((allowsAfter G.toGatewayDeployment (i :: before)).allowConsensusTxSenders
    key).toFinset, hpast.past_suffix, ?_, ?_, fun a ha => hcounted a (List.mem_toFinset.mp ha)⟩
  · refine ⟨i.1.sender, List.mem_toFinset.mpr ?_⟩
    rw [show allowsAfter G.toGatewayDeployment (i :: before) = _ from (allow_commits hc).2.2,
      senders_afterAllow, hkey, Function.update_self]
    exact List.mem_append_right _ (List.mem_singleton_self _)
  · rw [List.toFinset_card_of_nodup nodup_allowConsensusTxSenders, ← hconfig]
    exact hquorum

/-- Behind a key that is allowed there is a report of a coprocessor that does not deviate. -/
theorem exists_honest_report {honest : Address → Prop} (hfew : FewDeviate G owner honest calls)
    (h : (gatewayAfter G owner calls).allows.isAllowed key = true) :
    ∃ a, honest a ∧ ReportedBy G owner calls key a := by
  obtain ⟨past, senders, hpast, hsome, hquorum, hsenders⟩ := allowed_of_quorum h
  by_contra hnone
  have hlt := hfew past hpast senders hsome fun a ha =>
    ⟨fun hhonest => hnone ⟨a, hhonest, (hsenders a ha).1⟩, (hsenders a ha).2⟩
  omega

end Runs

end Fhevm.Gateway
