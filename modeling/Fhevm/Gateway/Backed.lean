import Fhevm.Gateway.Gateway

/-!
# What is behind consensus while operators change

When a contract of the gateway declares consensus, the ballots that it counts meet the
threshold of that moment, and each was cast by an operator that was registered when it
voted. Ballots stay when the owner replaces the operators.

## Main definitions

* `Consensus` — what consensus can be declared on.
* `Backing` — what holds of the ballots that are counted.
* `consensus_backed` — it holds in every run, whatever the owner changes.
* `not_registered_now` — the operators need not be registered any more.
-/

namespace Fhevm.Gateway

open Foundation Contract Host

/-! ## Consensus -/

inductive Consensus
  | decryption (a : DeclaredDecryption)
  | proof (zkProofId : Nat) (ctHandles : Option (List Bytes32))
  | kms (requestId : Nat)
  | material (args : AddCiphertextMaterial)
  | allow (target : AllowTarget)
  | delegation (report : Report) (args : DelegationArgs)

namespace Consensus

variable (G : GatewayChain)

/-- The call declares consensus. -/
def DeclaredBy (i : Address × GatewayCall) (s : GatewayState) : Consensus → Prop
  | .decryption a => ∃ k, (decryptionPart G).callOf i s = some k ∧
      DeclaresDecryption G.toGatewayDeployment k s.decryption a
  | .proof zkProofId ctHandles => ∃ k, (inputsPart G).callOf i s = some k ∧
      DeclaresProof G.toGatewayDeployment k s.inputs (zkProofId, ctHandles)
  | .kms requestId => ∃ k, (kmsPart G).callOf i s = some k ∧
      s.kms.isRequestDone requestId = false ∧
        ((kmsGeneration G.kmsEip712).step k s.kms).isRequestDone requestId = true
  | .material args => ∃ k, (commitsPart G).callOf i s = some k ∧ k.2 = args ∧
      DeclaresMaterial G.toGatewayDeployment k s.commits
  | .allow target => ∃ k, (allowsPart G).callOf i s = some k ∧ k.2.target = target ∧
      DeclaresAllow G.toGatewayDeployment k s.allows
  | .delegation report args => ∃ k, (delegationsPart G).callOf i s = some k ∧
      k.2 = (report, args) ∧ DeclaresDelegation G.hashDelegation k s.delegations

/-- What is counted when it is declared, by the storages after the call. -/
def Counted (s : GatewayState) (senders : List Address) (signatures : List Bytes) :
    Consensus → Prop
  | .decryption a => a.Counted s.decryption senders signatures
  | .proof zkProofId ctHandles => ProofCounted s.inputs zkProofId senders signatures ctHandles
  | .kms requestId => senders = getConsensusTxSenders s.kms requestId
  | .material args => senders =
      s.commits.coprocessorTxSenderAddresses (addCiphertextHash G.toGatewayDeployment args)
  | .allow target => senders =
      s.allows.allowConsensusTxSenders (target.key G.toGatewayDeployment)
  | .delegation report args => senders = s.delegations.txSenders report (G.hashDelegation args)

def threshold (config : GatewayConfigStorage) : Consensus → Nat
  | .decryption a => a.threshold config
  | .kms _ => config.kmsGenThreshold
  | _ => config.coprocessorThreshold

/-- The operators that vote on it, with the signer or the address under which they vote. -/
def Registered (config : GatewayConfigStorage) (operator : Address × Address) : Consensus → Prop
  | .decryption _ => config.kms.Enrolled operator
  | .kms _ => config.kms.Enrolled operator
  | .proof _ _ => config.coprocessors.Enrolled operator
  | _ => config.coprocessors.Listed operator

def isTxSender (config : GatewayConfigStorage) (a : Address) : Consensus → Bool
  | .decryption _ => config.kms.isTxSender a
  | .kms _ => config.kms.isTxSender a
  | _ => config.coprocessors.isTxSender a

variable {G}

/-- An operator votes under one address at a time. -/
theorem Registered.one {c : Consensus} {config : GatewayConfigStorage}
    (sender voter voter' : Address) (h : c.Registered config (sender, voter))
    (h' : c.Registered config (sender, voter')) : voter = voter' := by
  cases c with
  | decryption => exact Registry.Enrolled.one sender voter voter' h h'
  | kms => exact Registry.Enrolled.one sender voter voter' h h'
  | proof => exact Registry.Enrolled.one sender voter voter' h h'
  | material => exact Registry.Listed.one sender voter voter' h h'
  | allow => exact Registry.Listed.one sender voter voter' h h'
  | delegation => exact Registry.Listed.one sender voter voter' h h'

end Consensus

/-! ## Runs -/

section Runs

variable {G : GatewayChain} {owner : Address} {i : Address × GatewayCall}
  {past calls : List (Address × GatewayCall)} {c : Consensus}

/-- Reports of materials under one hash are about one handle. -/
def MaterialsApart (G : GatewayChain) (calls : List (Address × GatewayCall)) : Prop :=
  ∀ i ∈ calls, ∀ j ∈ calls, ∀ report report', i.2 = .commits report → j.2 = .commits report' →
    addCiphertextHash G.toGatewayDeployment report =
      addCiphertextHash G.toGatewayDeployment report' → report.ctHandle = report'.ctHandle

theorem hashesApart (h : MaterialsApart G calls) :
    HashesApart G.toGatewayDeployment ((commitsPart G).calls (.init owner) calls) := by
  have hreport : ∀ k ∈ (commitsPart G).calls (.init owner) calls,
      ∃ i ∈ calls, i.2 = .commits k.2 := by
    intro k hk
    obtain ⟨⟨sender, call⟩, past, hran, hcall⟩ := Component.mem_calls hk
    cases call <;> cases hcall
    exact ⟨_, hran.mem List.mem_cons_self, rfl⟩
  intro k hk k' hk' hhash
  obtain ⟨i, hi, hik⟩ := hreport k hk
  obtain ⟨j, hj, hjk⟩ := hreport k' hk'
  exact h i hi j hj _ _ hik hjk hhash

/-- The ballot was cast by a call of the run, under the configuration of that time. -/
def CastIn (G : GatewayChain) (owner : Address) (calls : List (Address × GatewayCall))
    (v : GatewayBallot) : Prop :=
  ∃ j before, Ran calls j before ∧ (gateway G).Commits j (gatewayAfter G owner before) ∧
    v.sender = j.1 ∧ v.config = (gatewayAfter G owner before).config

theorem castIn_of_mem {v : GatewayBallot} (hv : v ∈ gatewayVotes G owner calls) :
    CastIn G owner calls v := by
  obtain ⟨j, before, hran, hc, hcast⟩ := mem_votes.mp hv
  exact ⟨j, before, hran, hc, gatewayVote_sent hcast⟩

/-- What is counted comes from a quorum of the ballots of the run. -/
theorem decided_of_declared (hapart : MaterialsApart G (i :: past))
    (h : c.DeclaredBy G i (gatewayAfter G owner past)) :
    Decided (fun config operator => c.Registered config operator)
      (c.threshold (gatewayAfter G owner past).config) (gatewayVotes G owner (i :: past))
      (fun senders signatures =>
        c.Counted G (gatewayAfter G owner (i :: past)) senders signatures) := by
  cases c with
  | decryption a =>
    obtain ⟨k, hk, hdeclares⟩ := h
    have hbefore : (gatewayAfter G owner past).decryption =
        decryptionAfter G.toGatewayDeployment ((decryptionPart G).calls (.init owner) past) :=
      (decryptionPart G).part_exec past
    have hafter : (gatewayAfter G owner (i :: past)).decryption =
        decryptionAfter G.toGatewayDeployment (k :: (decryptionPart G).calls (.init owner) past) :=
      Component.part_exec_cons hk
    have hconfig := decryptionPart_config hk
    have hd := decryption_decided (hbefore ▸ hdeclares)
    rw [← hafter, ← Component.calls_cons_some hk, decryption_shares, hconfig] at hd
    exact hd.of_share
  | proof zkProofId ctHandles =>
    obtain ⟨k, hk, hdeclares⟩ := h
    have hbefore : (gatewayAfter G owner past).inputs =
        inputsAfter G.toGatewayDeployment ((inputsPart G).calls (.init owner) past) :=
      (inputsPart G).part_exec past
    have hafter : (gatewayAfter G owner (i :: past)).inputs =
        inputsAfter G.toGatewayDeployment (k :: (inputsPart G).calls (.init owner) past) :=
      Component.part_exec_cons hk
    have hconfig := inputsPart_config hk
    have hd := proof_decided (hbefore ▸ hdeclares)
    rw [← hafter, ← Component.calls_cons_some hk, proof_shares, hconfig] at hd
    exact hd.of_share
  | kms requestId =>
    obtain ⟨k, hk, hdeclares⟩ := h
    have hbefore : (gatewayAfter G owner past).kms =
        kmsAfter G.kmsEip712 ((kmsPart G).calls (.init owner) past) :=
      (kmsPart G).part_exec past
    have hafter : (gatewayAfter G owner (i :: past)).kms =
        kmsAfter G.kmsEip712 (k :: (kmsPart G).calls (.init owner) past) :=
      Component.part_exec_cons hk
    have hconfig := kmsPart_config hk
    have hd := kms_decided (hbefore ▸ hdeclares)
    rw [← hafter, ← Component.calls_cons_some hk, kms_shares, hconfig] at hd
    exact hd.of_share
  | material args =>
    obtain ⟨k, hk, rfl, hdeclares⟩ := h
    have hbefore : (gatewayAfter G owner past).commits =
        commitsAfter G.toGatewayDeployment ((commitsPart G).calls (.init owner) past) :=
      (commitsPart G).part_exec past
    have hafter : (gatewayAfter G owner (i :: past)).commits =
        commitsAfter G.toGatewayDeployment (k :: (commitsPart G).calls (.init owner) past) :=
      Component.part_exec_cons hk
    have hconfig := commitsPart_config hk
    have hd := material_decided (Component.calls_cons_some hk ▸ hashesApart hapart)
      (hbefore ▸ hdeclares)
    rw [← hafter, ← Component.calls_cons_some hk, material_shares, hconfig] at hd
    exact hd.of_share
  | allow target =>
    obtain ⟨k, hk, rfl, hdeclares⟩ := h
    have hbefore : (gatewayAfter G owner past).allows =
        allowsAfter G.toGatewayDeployment ((allowsPart G).calls (.init owner) past) :=
      (allowsPart G).part_exec past
    have hafter : (gatewayAfter G owner (i :: past)).allows =
        allowsAfter G.toGatewayDeployment (k :: (allowsPart G).calls (.init owner) past) :=
      Component.part_exec_cons hk
    have hconfig := allowsPart_config hk
    have hd := allow_decided (hbefore ▸ hdeclares)
    rw [← hafter, ← Component.calls_cons_some hk, allow_shares, hconfig] at hd
    exact hd.of_share
  | delegation report args =>
    obtain ⟨⟨tx, _, _⟩, hk, heq, hdeclares⟩ := h
    cases heq
    have hbefore : (gatewayAfter G owner past).delegations =
        delegationsAfter G.hashDelegation ((delegationsPart G).calls (.init owner) past) :=
      (delegationsPart G).part_exec past
    have hafter : (gatewayAfter G owner (i :: past)).delegations =
        delegationsAfter G.hashDelegation ((tx, report, args) :: (delegationsPart G).calls (.init owner) past) :=
      Component.part_exec_cons hk
    have hconfig := delegationsPart_config hk
    have hd := delegation_decided (hbefore ▸ hdeclares)
    rw [← hafter, ← Component.calls_cons_some hk, delegation_shares, hconfig] at hd
    exact hd.of_share

/-- What holds of the ballots that are counted when the call declares consensus: they were cast
in the run, by distinct voters that were registered at that time; and where all of them are
registered still, by as many distinct senders as the threshold asks for. -/
structure Backing (G : GatewayChain) (owner : Address) (i : Address × GatewayCall)
    (past : List (Address × GatewayCall)) (c : Consensus) (ballots : List GatewayBallot) : Prop where
  counted : c.Counted G (gatewayAfter G owner (i :: past)) (ballots.map Ballot.sender)
    (ballots.map Ballot.signature)
  cast : ∀ v ∈ ballots, v ∈ gatewayVotes G owner (i :: past) ∧ CastIn G owner (i :: past) v
  quorum : Quorum (fun config operator => c.Registered config operator)
    (c.threshold (gatewayAfter G owner past).config) ballots
  still : (∀ v ∈ ballots, c.Registered (gatewayAfter G owner past).config (v.sender, v.voter)) →
    c.threshold (gatewayAfter G owner past).config ≤ (ballots.map Ballot.sender).toFinset.card

end Runs

/-- Consensus is always declared on ballots that meet the threshold in force, each of them cast
by an operator that was registered at that time, under the same address or signer only once. -/
theorem consensus_backed (G : GatewayChain) (owner : Address)
    (past : List (Address × GatewayCall)) (i : Address × GatewayCall) (c : Consensus)
    (hapart : MaterialsApart G (i :: past))
    (h : c.DeclaredBy G i (gatewayAfter G owner past)) :
    ∃ ballots, Backing G owner i past c ballots := by
  obtain ⟨ballots, hsub, hcounted, hquorum⟩ := decided_of_declared hapart h
  exact ⟨ballots, hcounted, fun v hv => ⟨hsub hv, castIn_of_mem (hsub hv)⟩, hquorum,
    hquorum.card_senders (fun operator => c.Registered (gatewayAfter G owner past).config operator)
      Consensus.Registered.one⟩

/-- The senders counted that are registered at that time meet the threshold. -/
def RegisteredNow (G : GatewayChain) (owner : Address) (i : Address × GatewayCall)
    (past : List (Address × GatewayCall)) (c : Consensus) : Prop :=
  ∃ ballots : List GatewayBallot, ballots ⊆ gatewayVotes G owner (i :: past) ∧
    c.Counted G (gatewayAfter G owner (i :: past)) (ballots.map Ballot.sender)
      (ballots.map Ballot.signature) ∧
    c.threshold (gatewayAfter G owner past).config ≤
      ((ballots.map Ballot.sender).toFinset.filter fun a =>
        c.isTxSender (gatewayAfter G owner past).config a = true).card

/-! ## Runs in which operators change -/

section Samples

/-- A signature is the address of its signer. -/
def sampleChain : GatewayChain where
  toGatewayDeployment :=
    { sampleDeployment with
      recover := fun _ signature => some (BitVec.ofNat 160 (BigEndian.decode signature)) }
  hashVerification _ := 7
  hashDelegation _ := 8

/-- Two KMS nodes and two coprocessors, and two votes for everything. -/
def twoVotes : List (Address × GatewayCall) :=
  [(1, .config (.addHostChain 1)),
    (1, .config (.initializeFromEmptyProxy ⟨1, 2, 2, 2, 2⟩ [⟨20, 50, ""⟩, ⟨21, 51, ""⟩]
      [⟨30, 60, ""⟩, ⟨31, 61, ""⟩] [⟨40, 70, ""⟩]))]

def sampleTarget : AllowTarget := .publicDecrypt (1 <<< 16)

/-- The first coprocessor reports. -/
def oneReported : List (Address × GatewayCall) :=
  (30, .allow ⟨sampleTarget, []⟩) :: twoVotes

/-- It is replaced before the second one reports. -/
def replaced : List (Address × GatewayCall) :=
  (1, .config (.updateCoprocessors [⟨31, 61, ""⟩, ⟨32, 62, ""⟩] 2)) :: oneReported

/-- A KMS node answers, and its signer is replaced. -/
def rotated : List (Address × GatewayCall) :=
  (1, .config (.updateKmsNodes [⟨20, 52, ""⟩, ⟨21, 51, ""⟩] 1 2 2 2)) ::
    (20, .kms (.prepKeygenResponse (PREP_KEYGEN_COUNTER_BASE + 1) [50])) ::
      (1, .kms (.keygen .default)) :: twoVotes

def lastReport : Address × GatewayCall := (31, .allow ⟨sampleTarget, []⟩)

def lastResponse : Address × GatewayCall :=
  (20, .kms (.prepKeygenResponse (PREP_KEYGEN_COUNTER_BASE + 1) [52]))

variable {G : GatewayChain} {owner : Address}

theorem declaredBy_allow {past : List (Address × GatewayCall)} {sender : Address}
    {report : AllowCall}
    (h : ((((allows G.toGatewayDeployment).call (⟨sender, (gatewayAfter G owner past).config⟩, report)
      (gatewayAfter G owner past).allows).toOption.map Prod.fst).getD []).any
        (fun e => e.consensus = some report.target) = true) :
    (Consensus.allow report.target).DeclaredBy G (sender, .allow report)
      (gatewayAfter G owner past) := by
  refine ⟨_, rfl, rfl, ?_⟩
  cases hcall : (allows G.toGatewayDeployment).call
      (⟨sender, (gatewayAfter G owner past).config⟩, report) (gatewayAfter G owner past).allows with
  | error e =>
    rw [hcall] at h
    cases h
  | ok r =>
    rw [hcall] at h
    obtain ⟨e, he, hcons⟩ := List.any_eq_true.mp h
    exact ⟨r.1, r.2, hcall, e, he, by simpa using hcons⟩

theorem materialsApart_of_no_report {calls : List (Address × GatewayCall)}
    (h : ∀ i ∈ calls, ∀ report, i.2 ≠ .commits report) : MaterialsApart G calls :=
  fun i hi _ _ report _ hreport => absurd hreport (h i hi report)

theorem oneReported_backed :
    (Consensus.allow sampleTarget).DeclaredBy sampleChain lastReport
        (gatewayAfter sampleChain 1 oneReported) ∧
      ∃ ballots, Backing sampleChain 1 lastReport oneReported (.allow sampleTarget) ballots := by
  have hdeclared : (Consensus.allow sampleTarget).DeclaredBy sampleChain lastReport
      (gatewayAfter sampleChain 1 oneReported) := declaredBy_allow (by decide +kernel)
  exact ⟨hdeclared, consensus_backed sampleChain 1 oneReported lastReport (.allow sampleTarget)
    (materialsApart_of_no_report (by simp [lastReport, oneReported, twoVotes])) hdeclared⟩

/-- Consensus is declared with the vote of an operator that has been removed, and with two votes
of one operator under different signers. -/
theorem not_registered_now :
    ((Consensus.allow sampleTarget).DeclaredBy sampleChain lastReport
        (gatewayAfter sampleChain 1 replaced) ∧
      ¬ RegisteredNow sampleChain 1 lastReport replaced (.allow sampleTarget)) ∧
    ((Consensus.kms (PREP_KEYGEN_COUNTER_BASE + 1)).DeclaredBy sampleChain lastResponse
        (gatewayAfter sampleChain 1 rotated) ∧
      ¬ RegisteredNow sampleChain 1 lastResponse rotated
        (.kms (PREP_KEYGEN_COUNTER_BASE + 1))) := by
  refine ⟨⟨declaredBy_allow (by decide +kernel), ?_⟩, ⟨⟨_, rfl, by decide +kernel⟩, ?_⟩⟩
  · rintro ⟨ballots, -, hcounted, hcard⟩
    have hsenders : ballots.map Ballot.sender = [30, 31] := by
      refine Eq.trans hcounted ?_
      decide +kernel
    rw [hsenders] at hcard
    revert hcard
    decide +kernel
  · rintro ⟨ballots, -, hcounted, hcard⟩
    have hsenders : ballots.map Ballot.sender = [20, 20] := by
      refine Eq.trans hcounted ?_
      decide +kernel
    rw [hsenders] at hcard
    revert hcard
    decide +kernel

end Samples

end Fhevm.Gateway
