import Fhevm.Gateway.CiphertextCommits

/-!
# Permissions on the gateway

The coprocessors report which handles are allowed for public decryption and which
accounts may use a handle. Both kinds of reports are counted in the same mappings,
the first under the handle itself and the second under a hash.

## Main definitions

* `AllowTarget` — what a report allows.
* `MultichainACLAllows` — the part of the storage that concerns permissions.
* `allowPublicDecrypt`, `allowAccount` — the entry points.
* `allows` — the contract.
-/

namespace Fhevm.Gateway

open Foundation Contract Host

/-! ## Data -/

inductive AllowTarget
  | publicDecrypt (ctHandle : Bytes32)
  | account (ctHandle : Bytes32) (accountAddress : Address)
deriving DecidableEq, Repr

def AllowTarget.ctHandle : AllowTarget → Bytes32
  | .publicDecrypt ctHandle => ctHandle
  | .account ctHandle _ => ctHandle

structure MultichainACLAllows where
  allowCoprocessors : Bytes32 → Address → Bool
  allowCounters : Bytes32 → Nat
  allowConsensusTxSenders : Bytes32 → List Address
  isAllowed : Bytes32 → Bool
  allowContextId : Bytes32 → Nat

def MultichainACLAllows.init : MultichainACLAllows where
  allowCoprocessors _ _ := false
  allowCounters _ := 0
  allowConsensusTxSenders _ := []
  isAllowed _ := false
  allowContextId _ := 0

inductive AllowEvent
  | allowPublicDecrypt (ctHandle : Bytes32) (coprocessorTxSender : Address) (extraData : Bytes)
  | allowPublicDecryptConsensus (ctHandle : Bytes32) (extraData : Bytes)
  | allowAccount (ctHandle : Bytes32) (accountAddress coprocessorTxSender : Address)
      (extraData : Bytes)
  | allowAccountConsensus (ctHandle : Bytes32) (accountAddress : Address) (extraData : Bytes)
deriving DecidableEq, Repr

/-- The target on which the event declares consensus. -/
def AllowEvent.consensus : AllowEvent → Option AllowTarget
  | .allowPublicDecryptConsensus ctHandle _ => some (.publicDecrypt ctHandle)
  | .allowAccountConsensus ctHandle accountAddress _ => some (.account ctHandle accountAddress)
  | _ => none

inductive AllowError
  | check (e : GatewayConfigChecks.Error)
  | coprocessorAlreadyAllowedPublicDecrypt (ctHandle : Bytes32) (txSender : Address)
  | coprocessorAlreadyAllowedAccount (ctHandle : Bytes32) (accountAddress txSender : Address)
  | overflow
deriving DecidableEq, Repr

/-! ## Entry points -/

variable (D : GatewayDeployment)

/-- `_getAllowAccountHash` -/
def getAllowAccountHash (ctHandle : Bytes32) (accountAddress : Address) : Bytes32 :=
  D.keccak256 (wordBytes ctHandle ++ paddedAddress accountAddress)

/-- The storage with the report counted and its sender marked and kept. -/
def MultichainACLAllows.counted (s : MultichainACLAllows) (key : Bytes32) (sender : Address)
    (counter : Nat) : MultichainACLAllows :=
  { s with
    allowContextId :=
      if s.allowContextId key = 0 then Function.update s.allowContextId key 1
      else s.allowContextId
    allowCounters := Function.update s.allowCounters key counter
    allowCoprocessors := Function.update s.allowCoprocessors key
      (Function.update (s.allowCoprocessors key) sender true)
    allowConsensusTxSenders := Function.update s.allowConsensusTxSenders key
      (s.allowConsensusTxSenders key ++ [sender]) }

/-- The course of a report under the key of its target. -/
def reportAllow (tx : GatewayTx) (ctHandle key : Bytes32) (alreadyAllowed : AllowError)
    (event consensus : AllowEvent) (s : MultichainACLAllows) :
    Except AllowError (List AllowEvent × MultichainACLAllows) := do
  (GatewayConfigChecks.onlyCoprocessorTxSender tx.config tx.sender).mapError .check
  (onlyHandleFromRegisteredHostChain tx.config ctHandle).mapError .check
  require (s.allowCoprocessors key tx.sender = false) alreadyAllowed
  let counter ← increment 256 (s.allowCounters key) .overflow
  let s := s.counted key tx.sender counter
  if s.isAllowed key = false ∧ isConsensusReached tx.config (s.allowCounters key) = true then
    return ([event, consensus], { s with isAllowed := Function.update s.isAllowed key true })
  else
    return ([event], s)

def allowPublicDecrypt (tx : GatewayTx) (ctHandle : Bytes32) (extraData : Bytes)
    (s : MultichainACLAllows) : Except AllowError (List AllowEvent × MultichainACLAllows) :=
  reportAllow tx ctHandle ctHandle (.coprocessorAlreadyAllowedPublicDecrypt ctHandle tx.sender)
    (.allowPublicDecrypt ctHandle tx.sender extraData)
    (.allowPublicDecryptConsensus ctHandle extraData) s

def allowAccount (tx : GatewayTx) (ctHandle : Bytes32) (accountAddress : Address)
    (extraData : Bytes) (s : MultichainACLAllows) :
    Except AllowError (List AllowEvent × MultichainACLAllows) :=
  reportAllow tx ctHandle (getAllowAccountHash D ctHandle accountAddress)
    (.coprocessorAlreadyAllowedAccount ctHandle accountAddress tx.sender)
    (.allowAccount ctHandle accountAddress tx.sender extraData)
    (.allowAccountConsensus ctHandle accountAddress extraData) s

/-- A report: its target and the data that comes with it. -/
structure AllowCall where
  target : AllowTarget
  extraData : Bytes
deriving DecidableEq, Repr

/-- The contract: a report comes with its sender and the configuration it meets. -/
def allows : Contract (GatewayTx × AllowCall) MultichainACLAllows AllowError (List AllowEvent) where
  call i s :=
    match i.2.target with
    | .publicDecrypt ctHandle => allowPublicDecrypt i.1 ctHandle i.2.extraData s
    | .account ctHandle account => allowAccount D i.1 ctHandle account i.2.extraData s

/-- The storage after a run from the initialised contract. -/
abbrev allowsAfter (calls : List (GatewayTx × AllowCall)) : MultichainACLAllows :=
  (allows D).exec .init calls

/-! ## Views -/

def isPublicDecryptAllowed (s : MultichainACLAllows) (ctHandle : Bytes32) : Bool :=
  s.isAllowed ctHandle

def isAccountAllowed (s : MultichainACLAllows) (ctHandle : Bytes32) (accountAddress : Address) :
    Bool :=
  s.isAllowed (getAllowAccountHash D ctHandle accountAddress)

/-- The key under which reports on a target are counted. -/
def AllowTarget.key : AllowTarget → Bytes32
  | .publicDecrypt ctHandle => ctHandle
  | .account ctHandle accountAddress => getAllowAccountHash D ctHandle accountAddress

/-! ## What a report does -/

section Reports

variable {D} {i : GatewayTx × AllowCall} {s s' : MultichainACLAllows} {ev : List AllowEvent}

/-- The report is the one that completes a quorum. -/
def DecidesAllow (D : GatewayDeployment) (i : GatewayTx × AllowCall) (s : MultichainACLAllows) :
    Prop :=
  s.isAllowed (i.2.target.key D) = false ∧
    i.1.config.coprocessorThreshold ≤ s.allowCounters (i.2.target.key D) + 1

instance : Decidable (DecidesAllow D i s) := inferInstanceAs (Decidable (_ ∧ _))

/-- The storage after an accepted report. -/
def MultichainACLAllows.afterReport (s : MultichainACLAllows) (D : GatewayDeployment)
    (i : GatewayTx × AllowCall) : MultichainACLAllows :=
  let key := i.2.target.key D
  let counted := s.counted key i.1.sender (s.allowCounters key + 1)
  if DecidesAllow D i s then
    { counted with isAllowed := Function.update s.isAllowed key true }
  else counted

/-- A report is accepted from a coprocessor that has not sent one under the same key. -/
theorem allows_ok (h : (allows D).call i s = .ok (ev, s')) :
    i.1.config.coprocessors.isTxSender i.1.sender = true ∧
      i.1.config.isHostChainRegistered (extractChainId i.2.target.ctHandle).toNat = true ∧
        s.allowCoprocessors (i.2.target.key D) i.1.sender = false ∧
          s' = s.afterReport D i ∧
            ((∃ e ∈ ev, e.consensus = some i.2.target) ↔ DecidesAllow D i s) := by
  have hreport : ∀ already event consensus, AllowEvent.consensus event = none →
      AllowEvent.consensus consensus = some i.2.target →
      reportAllow i.1 i.2.target.ctHandle (i.2.target.key D) already event consensus s =
        .ok (ev, s') →
      i.1.config.coprocessors.isTxSender i.1.sender = true ∧
        i.1.config.isHostChainRegistered (extractChainId i.2.target.ctHandle).toNat = true ∧
          s.allowCoprocessors (i.2.target.key D) i.1.sender = false ∧
            s' = s.afterReport D i ∧
              ((∃ e ∈ ev, e.consensus = some i.2.target) ↔ DecidesAllow D i s) := by
    intro already event consensus hevent hconsensus h
    simp only [reportAllow, GatewayConfigChecks.onlyCoprocessorTxSender,
      onlyHandleFromRegisteredHostChain, GatewayConfigChecks.onlyRegisteredHostChain, bind_eq_ok,
      mapError_eq_ok, require_eq_ok, increment_eq_ok, exists_const] at h
    obtain ⟨hsender, hchain, hfresh, _, ⟨-, rfl⟩, h⟩ := h
    refine ⟨hsender, hchain, hfresh, ?_⟩
    by_cases hd : DecidesAllow D i s
    · rw [if_pos (by simpa [MultichainACLAllows.counted, isConsensusReached, DecidesAllow]
        using hd)] at h
      cases h
      exact ⟨by simp only [MultichainACLAllows.afterReport, if_pos hd]; rfl,
        by simp [hd, hconsensus]⟩
    · rw [if_neg (by simpa [MultichainACLAllows.counted, isConsensusReached, DecidesAllow]
        using hd)] at h
      cases h
      exact ⟨by simp only [MultichainACLAllows.afterReport, if_neg hd], by simp [hd, hevent]⟩
  obtain ⟨tx, ⟨target, extraData⟩⟩ := i
  cases target with
  | publicDecrypt ctHandle => exact hreport _ _ _ rfl rfl h
  | account ctHandle account => exact hreport _ _ _ rfl rfl h

theorem counters_afterAllow : (s.afterReport D i).allowCounters =
    Function.update s.allowCounters (i.2.target.key D)
      (s.allowCounters (i.2.target.key D) + 1) := by
  unfold MultichainACLAllows.afterReport
  dsimp only
  split_ifs <;> rfl

theorem senders_afterAllow : (s.afterReport D i).allowConsensusTxSenders =
    Function.update s.allowConsensusTxSenders (i.2.target.key D)
      (s.allowConsensusTxSenders (i.2.target.key D) ++ [i.1.sender]) := by
  unfold MultichainACLAllows.afterReport
  dsimp only
  split_ifs <;> rfl

theorem coprocessors_afterAllow : (s.afterReport D i).allowCoprocessors =
    Function.update s.allowCoprocessors (i.2.target.key D)
      (Function.update (s.allowCoprocessors (i.2.target.key D)) i.1.sender true) := by
  unfold MultichainACLAllows.afterReport
  dsimp only
  split_ifs <;> rfl

theorem isAllowed_afterAllow {key : Bytes32} :
    (s.afterReport D i).isAllowed key = true ↔
      s.isAllowed key = true ∨ (DecidesAllow D i s ∧ i.2.target.key D = key) := by
  unfold MultichainACLAllows.afterReport
  dsimp only
  split_ifs with hd
  · simp only [Function.update_apply, hd, true_and]
    grind
  · simp [MultichainACLAllows.counted, hd]

end Reports

end Fhevm.Gateway
