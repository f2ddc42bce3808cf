import Fhevm.Host.ACL

/-!
# Delegations of user decryption on the gateway

The coprocessors report the delegations made on the host chains. A report is stored
once enough coprocessors have sent the same one.

## Main definitions

* `DelegationArgs` — what a report says.
* `MultichainACLState` — the part of the storage that concerns delegations.
* `delegateUserDecryption`, `revokeUserDecryptionDelegation` — the entry points.
-/

namespace Fhevm.Gateway

open Foundation

/-! ## Data -/

/-- The arguments of a report, all of them hashed. -/
structure DelegationArgs where
  chainId : Nat
  delegator : Address
  delegate : Address
  contractAddress : Address
  delegationCounter : Nat
  expirationDate : Nat
deriving DecidableEq, Repr

structure GatewayDelegation where
  delegationCounter : Nat
  expirationDate : Nat
deriving DecidableEq, Repr

/-- What is reported. The two kinds of reports share their hashes. -/
inductive Report
  | delegate
  | revoke
deriving DecidableEq, Repr

/-- The coprocessors of the gateway configuration. -/
structure CoprocessorConfig where
  coprocessorTxSenders : Finset Address
  coprocessorThreshold : Nat
  threshold_pos : 0 < coprocessorThreshold

/-- `txSenders` are `delegateUserDecryptionTxSenders` and `revokeUserDecryptionTxSenders`,
`already` are `alreadyDelegatedUserDecryptionCoprocessors` and its twin for revocations. -/
structure MultichainACLState where
  delegatedOrRevokedUserDecryptionHashes : Bytes32 → Bool
  txSenders : Report → Bytes32 → List Address
  already : Report → Bytes32 → Address → Bool
  userDecryptionDelegations : Nat → Address → Address → Address → GatewayDelegation

def MultichainACLState.init : MultichainACLState where
  delegatedOrRevokedUserDecryptionHashes _ := false
  txSenders _ _ := []
  already _ _ _ := false
  userDecryptionDelegations _ _ _ _ := ⟨0, 0⟩

inductive MultichainACLEvent
  | delegateUserDecryption (args : DelegationArgs)
  | delegateUserDecryptionConsensus (args : DelegationArgs) (oldExpirationDate : Nat)
  | revokeUserDecryptionDelegation (args : DelegationArgs)
  | revokeUserDecryptionDelegationConsensusReached (args : DelegationArgs)
      (oldExpirationDate : Nat)
deriving DecidableEq, Repr

inductive MultichainACLError
  | notCoprocessorTxSender (txSenderAddress : Address)
  | coprocessorAlreadyDelegatedUserDecryption (args : DelegationArgs) (txSender : Address)
  | coprocessorAlreadyRevokedUserDecryption (args : DelegationArgs) (txSender : Address)
  | userDecryptionDelegationCounterTooLow (delegationCounter : Nat)
deriving DecidableEq, Repr

/-! ## Entry points -/

/-- The stored delegation that the report is about. -/
def MultichainACLState.delegation (s : MultichainACLState) (args : DelegationArgs) :
    GatewayDelegation :=
  s.userDecryptionDelegations args.chainId args.delegator args.delegate args.contractAddress

def MultichainACLState.setDelegation (s : MultichainACLState) (args : DelegationArgs)
    (delegation : GatewayDelegation) : MultichainACLState :=
  { s with
    userDecryptionDelegations := fun chainId delegator delegate contractAddress =>
      if chainId = args.chainId ∧ delegator = args.delegator ∧ delegate = args.delegate ∧
          contractAddress = args.contractAddress then delegation
      else s.userDecryptionDelegations chainId delegator delegate contractAddress }

/-- The storage with the sender of a report marked and kept. -/
def MultichainACLState.reported (s : MultichainACLState) (report : Report) (hash : Bytes32)
    (sender : Address) : MultichainACLState :=
  { s with
    already := Function.update s.already report (Function.update (s.already report) hash
      (Function.update (s.already report hash) sender true))
    txSenders := Function.update s.txSenders report (Function.update (s.txSenders report) hash
      (s.txSenders report hash ++ [sender])) }

def checkAlreadyDelegatedOrRevokedUserDecryptionDelegation (sender : Address)
    (args : DelegationArgs) (hash : Bytes32) (s : MultichainACLState) :
    Except MultichainACLError Unit := do
  require (s.already .delegate hash sender = false)
    (.coprocessorAlreadyDelegatedUserDecryption args sender)
  require (s.already .revoke hash sender = false)
    (.coprocessorAlreadyRevokedUserDecryption args sender)

/-- The course of a report: it is kept, and stored as the delegation once enough coprocessors
have sent it. A report that comes too late for the stored delegation then reverts. -/
def sendReport (hashOf : DelegationArgs → Bytes32) (config : CoprocessorConfig) (report : Report)
    (newExpirationDate : Nat) (event : MultichainACLEvent)
    (consensus : Nat → MultichainACLEvent) (sender : Address) (args : DelegationArgs)
    (s : MultichainACLState) :
    Except MultichainACLError (List MultichainACLEvent × MultichainACLState) := do
  require (sender ∈ config.coprocessorTxSenders) (.notCoprocessorTxSender sender)
  let hash := hashOf args
  checkAlreadyDelegatedOrRevokedUserDecryptionDelegation sender args hash s
  let s := s.reported report hash sender
  if s.delegatedOrRevokedUserDecryptionHashes hash = false ∧
      config.coprocessorThreshold ≤ (s.txSenders report hash).length then
    let delegation := s.delegation args
    require (¬ args.delegationCounter ≤ delegation.delegationCounter)
      (.userDecryptionDelegationCounterTooLow args.delegationCounter)
    let s := s.setDelegation args ⟨args.delegationCounter, newExpirationDate⟩
    return ([event, consensus delegation.expirationDate],
      { s with
        delegatedOrRevokedUserDecryptionHashes :=
          Function.update s.delegatedOrRevokedUserDecryptionHashes hash true })
  else
    return ([event], s)

def delegateUserDecryption (hashOf : DelegationArgs → Bytes32) (config : CoprocessorConfig)
    (sender : Address) (args : DelegationArgs) (s : MultichainACLState) :
    Except MultichainACLError (List MultichainACLEvent × MultichainACLState) :=
  sendReport hashOf config .delegate args.expirationDate (.delegateUserDecryption args)
    (.delegateUserDecryptionConsensus args) sender args s

def revokeUserDecryptionDelegation (hashOf : DelegationArgs → Bytes32)
    (config : CoprocessorConfig) (sender : Address) (args : DelegationArgs)
    (s : MultichainACLState) :
    Except MultichainACLError (List MultichainACLEvent × MultichainACLState) :=
  sendReport hashOf config .revoke 0 (.revokeUserDecryptionDelegation args)
    (.revokeUserDecryptionDelegationConsensusReached args) sender args s

/-- The entry point for a kind of report. -/
def reportCall (hashOf : DelegationArgs → Bytes32) (config : CoprocessorConfig) :
    Report → Address → DelegationArgs → MultichainACLState →
      Except MultichainACLError (List MultichainACLEvent × MultichainACLState)
  | .delegate => delegateUserDecryption hashOf config
  | .revoke => revokeUserDecryptionDelegation hashOf config

/-- The expiration date that a report stores. -/
def Report.newExpirationDate : Report → DelegationArgs → Nat
  | .delegate, args => args.expirationDate
  | .revoke, _ => 0

/-! ## What a report does -/

section Reports

variable {hashOf : DelegationArgs → Bytes32} {config : CoprocessorConfig} {report : Report}
  {sender : Address} {args : DelegationArgs} {s s' : MultichainACLState}
  {ev : List MultichainACLEvent}

/-- The report is the one that completes a quorum. -/
def Decides (hashOf : DelegationArgs → Bytes32) (config : CoprocessorConfig) (report : Report)
    (args : DelegationArgs) (s : MultichainACLState) : Prop :=
  s.delegatedOrRevokedUserDecryptionHashes (hashOf args) = false ∧
    config.coprocessorThreshold ≤ (s.txSenders report (hashOf args)).length + 1

instance : Decidable (Decides hashOf config report args s) :=
  inferInstanceAs (Decidable (_ ∧ _))

/-- The storage after an accepted report. -/
def MultichainACLState.afterReport (s : MultichainACLState) (hashOf : DelegationArgs → Bytes32)
    (config : CoprocessorConfig) (report : Report) (sender : Address) (args : DelegationArgs) :
    MultichainACLState :=
  let reported := s.reported report (hashOf args) sender
  if Decides hashOf config report args s then
    { reported.setDelegation args ⟨args.delegationCounter, report.newExpirationDate args⟩ with
      delegatedOrRevokedUserDecryptionHashes :=
        Function.update s.delegatedOrRevokedUserDecryptionHashes (hashOf args) true }
  else reported

theorem checkAlready_eq_ok {hash : Bytes32} {u : Unit} :
    checkAlreadyDelegatedOrRevokedUserDecryptionDelegation sender args hash s = .ok u ↔
      ∀ r, s.already r hash sender = false := by
  simp only [checkAlreadyDelegatedOrRevokedUserDecryptionDelegation, bind_eq_ok, require_eq_ok,
    exists_const]
  constructor
  · rintro ⟨hd, hr⟩ r
    cases r
    · exact hd
    · exact hr
  · exact fun h => ⟨h .delegate, h .revoke⟩

theorem decides_iff {hash : Bytes32} (hhash : hashOf args = hash) :
    ((s.reported report hash sender).delegatedOrRevokedUserDecryptionHashes hash = false ∧
        config.coprocessorThreshold ≤ ((s.reported report hash sender).txSenders report hash).length)
      ↔ Decides hashOf config report args s := by
  subst hhash
  simp [Decides, MultichainACLState.reported]

/-- A report is accepted from a coprocessor that has not sent either kind of report with
this hash, unless it decides and is not newer than the stored delegation. -/
theorem reportCall_eq_ok :
    (∃ ev, reportCall hashOf config report sender args s = .ok (ev, s')) ↔
      sender ∈ config.coprocessorTxSenders ∧
        (∀ r, s.already r (hashOf args) sender = false) ∧
          (Decides hashOf config report args s →
            (s.delegation args).delegationCounter < args.delegationCounter) ∧
              s' = s.afterReport hashOf config report sender args := by
  have hsend : ∀ event consensus,
      (∃ ev, sendReport hashOf config report (report.newExpirationDate args) event consensus sender
          args s = .ok (ev, s')) ↔
        sender ∈ config.coprocessorTxSenders ∧
          (∀ r, s.already r (hashOf args) sender = false) ∧
            (Decides hashOf config report args s →
              (s.delegation args).delegationCounter < args.delegationCounter) ∧
                s' = s.afterReport hashOf config report sender args := by
    intro event consensus
    simp only [sendReport, bind_eq_ok, require_eq_ok, checkAlready_eq_ok, exists_const,
      decides_iff rfl, MultichainACLState.afterReport]
    by_cases hdec : Decides hashOf config report args s
    · simp only [hdec, if_true, bind_eq_ok, require_eq_ok, exists_const, forall_true_left]
      constructor
      · rintro ⟨ev, hmem, hfresh, hnew, h⟩
        cases h
        exact ⟨hmem, hfresh, Nat.lt_of_not_le hnew, rfl⟩
      · rintro ⟨hmem, hfresh, hnew, rfl⟩
        exact ⟨_, hmem, hfresh, Nat.not_le_of_lt hnew, rfl⟩
    · simp only [hdec, if_false]
      constructor
      · rintro ⟨ev, hmem, hfresh, h⟩
        cases h
        exact ⟨hmem, hfresh, by simp, rfl⟩
      · rintro ⟨hmem, hfresh, -, rfl⟩
        exact ⟨_, hmem, hfresh, rfl⟩
  cases report
  · exact hsend _ _
  · exact hsend _ _

theorem already_reported {hash h : Bytes32} {r : Report} {c : Address} :
    (s.reported report hash sender).already r h c = true ↔
      (r = report ∧ h = hash ∧ c = sender) ∨ s.already r h c = true := by
  by_cases hr : r = report
  · subst hr
    by_cases hh : h = hash
    · subst hh
      by_cases hc : c = sender <;> simp [MultichainACLState.reported, hc]
    · simp [MultichainACLState.reported, hh]
  · simp [MultichainACLState.reported, hr]

theorem txSenders_reported {hash h : Bytes32} {r : Report} :
    (s.reported report hash sender).txSenders r h =
      if r = report ∧ h = hash then s.txSenders r h ++ [sender] else s.txSenders r h := by
  by_cases hr : r = report
  · subst hr
    by_cases hh : h = hash
    · subst hh
      simp [MultichainACLState.reported]
    · simp [MultichainACLState.reported, hh]
  · simp [MultichainACLState.reported, hr]

theorem already_afterReport : (s.afterReport hashOf config report sender args).already =
    (s.reported report (hashOf args) sender).already := by
  unfold MultichainACLState.afterReport
  dsimp only
  split_ifs <;> rfl

theorem txSenders_afterReport : (s.afterReport hashOf config report sender args).txSenders =
    (s.reported report (hashOf args) sender).txSenders := by
  unfold MultichainACLState.afterReport
  dsimp only
  split_ifs <;> rfl

theorem hashes_afterReport {h : Bytes32} :
    (s.afterReport hashOf config report sender args).delegatedOrRevokedUserDecryptionHashes h = true ↔
      (Decides hashOf config report args s ∧ h = hashOf args) ∨
        s.delegatedOrRevokedUserDecryptionHashes h = true := by
  unfold MultichainACLState.afterReport
  dsimp only
  split_ifs with hdec
  · simp only [hdec, true_and, Function.update_apply]
    grind
  · simp [hdec, MultichainACLState.reported]

/-- Only a report that decides changes a stored delegation, the one it is about. -/
theorem delegation_afterReport {args' : DelegationArgs} :
    (s.afterReport hashOf config report sender args).delegation args' =
      if Decides hashOf config report args s ∧ args'.chainId = args.chainId ∧
          args'.delegator = args.delegator ∧ args'.delegate = args.delegate ∧
            args'.contractAddress = args.contractAddress
      then ⟨args.delegationCounter, report.newExpirationDate args⟩ else s.delegation args' := by
  unfold MultichainACLState.afterReport
  dsimp only
  by_cases hdec : Decides hashOf config report args s
  · simp only [hdec, if_true, true_and]
    rfl
  · simp only [hdec, if_false, false_and]
    rfl

end Reports

end Fhevm.Gateway
