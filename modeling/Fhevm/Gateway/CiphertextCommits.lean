import Fhevm.Gateway.Ballot
import Fhevm.Gateway.Eip712
import Fhevm.Host.Handle

/-!
# Commitments to ciphertexts

The coprocessors report the material of each handle, and it is stored once enough of
them have reported the same one.

## Main definitions

* `AddCiphertextMaterial` — what a report says.
* `CiphertextCommitsStorage` — the storage of the contract.
* `ciphertextCommits` — the contract.
* `materialVote` — the ballot of a report.
-/

namespace Fhevm.Gateway

open Foundation Contract Host

/-! ## Data -/

/-- The arguments of a report, all of them hashed. -/
structure AddCiphertextMaterial where
  ctHandle : Bytes32
  keyId : Nat
  ciphertextDigest : Bytes32
  snsCiphertextDigest : Bytes32
deriving DecidableEq, Repr

structure CiphertextCommitsStorage where
  keyIds : Bytes32 → Nat
  ciphertextDigests : Bytes32 → Bytes32
  snsCiphertextDigests : Bytes32 → Bytes32
  isCiphertextMaterialAdded : Bytes32 → Bool
  addCiphertextHashCounters : Bytes32 → Nat
  ctHandleConsensusHash : Bytes32 → Bytes32
  alreadyAddedCoprocessorTxSenders : Bytes32 → Address → Bool
  coprocessorTxSenderAddresses : Bytes32 → List Address
  addCiphertextContextId : Bytes32 → Nat

def CiphertextCommitsStorage.init : CiphertextCommitsStorage where
  keyIds _ := 0
  ciphertextDigests _ := 0
  snsCiphertextDigests _ := 0
  isCiphertextMaterialAdded _ := false
  addCiphertextHashCounters _ := 0
  ctHandleConsensusHash _ := 0
  alreadyAddedCoprocessorTxSenders _ _ := false
  coprocessorTxSenderAddresses _ := []
  addCiphertextContextId _ := 0

inductive CiphertextCommitsEvent
  | addCiphertextMaterial (args : AddCiphertextMaterial) (coprocessorTxSender : Address)
  | addCiphertextMaterialConsensus (args : AddCiphertextMaterial)
      (coprocessorTxSenderAddresses : List Address)
deriving DecidableEq, Repr

inductive CiphertextCommitsError
  | check (e : GatewayConfigChecks.Error)
  | coprocessorAlreadyAdded (ctHandle : Bytes32) (coprocessorTxSender : Address)
  | ciphertextMaterialNotFound (ctHandle : Bytes32)
  | overflow
deriving DecidableEq, Repr

/-! ## Entry point -/

variable (D : GatewayDeployment)

/-- The hash by which reports with the same information are counted. -/
def addCiphertextHash (args : AddCiphertextMaterial) : Bytes32 :=
  D.keccak256 (wordBytes args.ctHandle ++ uintBytes args.keyId ++
    wordBytes args.ciphertextDigest ++ wordBytes args.snsCiphertextDigest)

/-- `onlyHandleFromRegisteredHostChain` -/
def onlyHandleFromRegisteredHostChain (config : GatewayConfigStorage) (handle : Bytes32) :
    Except GatewayConfigChecks.Error Unit :=
  GatewayConfigChecks.onlyRegisteredHostChain config (extractChainId handle).toNat

/-- `_isConsensusReached`, which the contracts of the coprocessors share. -/
def isConsensusReached (config : GatewayConfigStorage) (coprocessorCounter : Nat) : Bool :=
  decide (config.coprocessorThreshold ≤ coprocessorCounter)

/-- The storage with the report counted and its sender marked and kept. -/
def CiphertextCommitsStorage.counted (s : CiphertextCommitsStorage) (args : AddCiphertextMaterial)
    (hash : Bytes32) (sender : Address) (counter : Nat) : CiphertextCommitsStorage :=
  { s with
    addCiphertextHashCounters := Function.update s.addCiphertextHashCounters hash counter
    addCiphertextContextId :=
      if s.addCiphertextContextId hash = 0 then Function.update s.addCiphertextContextId hash 1
      else s.addCiphertextContextId
    alreadyAddedCoprocessorTxSenders :=
      Function.update s.alreadyAddedCoprocessorTxSenders args.ctHandle
        (Function.update (s.alreadyAddedCoprocessorTxSenders args.ctHandle) sender true)
    coprocessorTxSenderAddresses := Function.update s.coprocessorTxSenderAddresses hash
      (s.coprocessorTxSenderAddresses hash ++ [sender]) }

/-- The storage with the reported material as that of the handle. -/
def CiphertextCommitsStorage.withMaterial (s : CiphertextCommitsStorage)
    (args : AddCiphertextMaterial) (hash : Bytes32) : CiphertextCommitsStorage :=
  { s with
    ciphertextDigests := Function.update s.ciphertextDigests args.ctHandle args.ciphertextDigest
    snsCiphertextDigests :=
      Function.update s.snsCiphertextDigests args.ctHandle args.snsCiphertextDigest
    keyIds := Function.update s.keyIds args.ctHandle args.keyId
    isCiphertextMaterialAdded := Function.update s.isCiphertextMaterialAdded args.ctHandle true
    ctHandleConsensusHash := Function.update s.ctHandleConsensusHash args.ctHandle hash }

def addCiphertextMaterial (tx : GatewayTx) (args : AddCiphertextMaterial)
    (s : CiphertextCommitsStorage) :
    Except CiphertextCommitsError (List CiphertextCommitsEvent × CiphertextCommitsStorage) := do
  (GatewayConfigChecks.onlyCoprocessorTxSender tx.config tx.sender).mapError .check
  (onlyHandleFromRegisteredHostChain tx.config args.ctHandle).mapError .check
  require (s.alreadyAddedCoprocessorTxSenders args.ctHandle tx.sender = false)
    (.coprocessorAlreadyAdded args.ctHandle tx.sender)
  let hash := addCiphertextHash D args
  let counter ← increment 256 (s.addCiphertextHashCounters hash) .overflow
  let s := s.counted args hash tx.sender counter
  let event := .addCiphertextMaterial args tx.sender
  if s.isCiphertextMaterialAdded args.ctHandle = false ∧
      isConsensusReached tx.config (s.addCiphertextHashCounters hash) = true then
    let s := s.withMaterial args hash
    return ([event, .addCiphertextMaterialConsensus args (s.coprocessorTxSenderAddresses hash)], s)
  else
    return ([event], s)

/-- The contract: a report comes with its sender and the configuration it meets. -/
def ciphertextCommits : Contract (GatewayTx × AddCiphertextMaterial) CiphertextCommitsStorage
    CiphertextCommitsError (List CiphertextCommitsEvent) where
  call i s := addCiphertextMaterial D i.1 i.2 s

/-- The storage after a run from the initialised contract. -/
abbrev commitsAfter (calls : List (GatewayTx × AddCiphertextMaterial)) :
    CiphertextCommitsStorage :=
  (ciphertextCommits D).exec .init calls

/-! ## Views -/

structure CiphertextMaterial where
  ctHandle : Bytes32
  keyId : Nat
  digest : Bytes32
  coprocessorTxSenderAddresses : List Address
deriving DecidableEq, Repr

/-- One turn of the loops of the two getters, with the digests that the getter reads. -/
def CiphertextCommitsStorage.material (s : CiphertextCommitsStorage)
    (digests : Bytes32 → Bytes32) (ctHandle : Bytes32) :
    Except CiphertextCommitsError CiphertextMaterial := do
  require (s.isCiphertextMaterialAdded ctHandle = true) (.ciphertextMaterialNotFound ctHandle)
  return ⟨ctHandle, s.keyIds ctHandle, digests ctHandle,
    s.coprocessorTxSenderAddresses (s.ctHandleConsensusHash ctHandle)⟩

def getCiphertextMaterials (s : CiphertextCommitsStorage) (ctHandles : List Bytes32) :
    Except CiphertextCommitsError (List CiphertextMaterial) :=
  ctHandles.mapM (s.material s.ciphertextDigests)

def getSnsCiphertextMaterials (s : CiphertextCommitsStorage) (ctHandles : List Bytes32) :
    Except CiphertextCommitsError (List CiphertextMaterial) :=
  ctHandles.mapM (s.material s.snsCiphertextDigests)

/-! ## What a report does -/

section Reports

variable {D} {tx : GatewayTx} {args : AddCiphertextMaterial} {s s' : CiphertextCommitsStorage}

/-- The report is the one that completes a quorum. -/
def DecidesMaterial (D : GatewayDeployment) (tx : GatewayTx) (args : AddCiphertextMaterial)
    (s : CiphertextCommitsStorage) : Prop :=
  s.isCiphertextMaterialAdded args.ctHandle = false ∧
    tx.config.coprocessorThreshold ≤ s.addCiphertextHashCounters (addCiphertextHash D args) + 1

instance : Decidable (DecidesMaterial D tx args s) := inferInstanceAs (Decidable (_ ∧ _))

/-- The storage after an accepted report. -/
def CiphertextCommitsStorage.afterReport (s : CiphertextCommitsStorage) (D : GatewayDeployment)
    (tx : GatewayTx) (args : AddCiphertextMaterial) : CiphertextCommitsStorage :=
  let hash := addCiphertextHash D args
  let counted := s.counted args hash tx.sender (s.addCiphertextHashCounters hash + 1)
  if DecidesMaterial D tx args s then counted.withMaterial args hash else counted

/-- A report is accepted from a coprocessor that has not reported the handle. -/
theorem addCiphertextMaterial_ok {ev : List CiphertextCommitsEvent}
    (h : addCiphertextMaterial D tx args s = .ok (ev, s')) :
    tx.config.coprocessors.isTxSender tx.sender = true ∧
      tx.config.isHostChainRegistered (extractChainId args.ctHandle).toNat = true ∧
        s.alreadyAddedCoprocessorTxSenders args.ctHandle tx.sender = false ∧
          s' = s.afterReport D tx args ∧
            ((∃ senders, .addCiphertextMaterialConsensus args senders ∈ ev) ↔
              DecidesMaterial D tx args s) := by
  simp only [addCiphertextMaterial, GatewayConfigChecks.onlyCoprocessorTxSender,
    onlyHandleFromRegisteredHostChain, GatewayConfigChecks.onlyRegisteredHostChain, bind_eq_ok,
    mapError_eq_ok, require_eq_ok, increment_eq_ok, exists_const] at h
  obtain ⟨hsender, hchain, hfresh, _, ⟨-, rfl⟩, h⟩ := h
  refine ⟨hsender, hchain, hfresh, ?_⟩
  have hdec : (((s.counted args (addCiphertextHash D args) tx.sender
      (s.addCiphertextHashCounters (addCiphertextHash D args) + 1)).isCiphertextMaterialAdded
        args.ctHandle = false) ∧ isConsensusReached tx.config
          ((s.counted args (addCiphertextHash D args) tx.sender
            (s.addCiphertextHashCounters (addCiphertextHash D args) + 1)).addCiphertextHashCounters
              (addCiphertextHash D args)) = true) ↔ DecidesMaterial D tx args s := by
    simp [CiphertextCommitsStorage.counted, isConsensusReached, DecidesMaterial]
  rw [if_congr hdec rfl rfl] at h
  by_cases hd : DecidesMaterial D tx args s
  · rw [if_pos hd] at h
    cases h
    exact ⟨by simp only [CiphertextCommitsStorage.afterReport, if_pos hd], by simp [hd]⟩
  · rw [if_neg hd] at h
    cases h
    exact ⟨by simp only [CiphertextCommitsStorage.afterReport, if_neg hd], by simp [hd]⟩

theorem counters_afterReport : (s.afterReport D tx args).addCiphertextHashCounters =
    Function.update s.addCiphertextHashCounters (addCiphertextHash D args)
      (s.addCiphertextHashCounters (addCiphertextHash D args) + 1) := by
  unfold CiphertextCommitsStorage.afterReport
  dsimp only
  split_ifs <;> rfl

theorem senders_afterReport : (s.afterReport D tx args).coprocessorTxSenderAddresses =
    Function.update s.coprocessorTxSenderAddresses (addCiphertextHash D args)
      (s.coprocessorTxSenderAddresses (addCiphertextHash D args) ++ [tx.sender]) := by
  unfold CiphertextCommitsStorage.afterReport
  dsimp only
  split_ifs <;> rfl

theorem alreadyAdded_afterReport : (s.afterReport D tx args).alreadyAddedCoprocessorTxSenders =
    Function.update s.alreadyAddedCoprocessorTxSenders args.ctHandle
      (Function.update (s.alreadyAddedCoprocessorTxSenders args.ctHandle) tx.sender true) := by
  unfold CiphertextCommitsStorage.afterReport
  dsimp only
  split_ifs <;> rfl

theorem isAdded_afterReport {h : Bytes32} :
    (s.afterReport D tx args).isCiphertextMaterialAdded h = true ↔
      s.isCiphertextMaterialAdded h = true ∨ (DecidesMaterial D tx args s ∧ args.ctHandle = h) := by
  unfold CiphertextCommitsStorage.afterReport
  dsimp only
  split_ifs with hd
  · simp only [CiphertextCommitsStorage.withMaterial, CiphertextCommitsStorage.counted,
      Function.update_apply, hd, true_and]
    grind
  · simp [CiphertextCommitsStorage.counted, hd]

end Reports

end Fhevm.Gateway
