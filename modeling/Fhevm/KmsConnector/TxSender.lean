import Fhevm.Common.Evm
import Fhevm.Gateway.Gateway
import Fhevm.KmsConnector.Connector

/-!
# The transaction sender of a KMS connector

A response is sent to the gateway in a few attempts. What the sender makes of an error decides
whether it is sent again: an error that decodes as one of the contracts is irrecoverable, and the row
of the response is removed as if it had been accepted.

## Main definitions

* `ErrorPayload`, `SendError.ofRpcError` — the errors of a node, and what is made of them.
* `Attempt`, `sendTxSyncWithRetry` — the attempts of a transaction.
* `sendToGateway` — how the sending of a response ends.
* `KmsResponseKind.call` — the call of the gateway that carries a response.
-/

namespace Fhevm.KmsConnector

open Foundation Contract Gateway Host

/-! ## Errors -/

/-- What `as_decoded_interface_error` makes of the data of an error response, at each interface. -/
structure ErrorPayload where
  decryptionErrors : Option DecryptionError
  kmsGenerationErrors : Option KMSGenerationError
  gatewayConfigErrors : Option GatewayConfigError

inductive ContractError
  | decryption (e : DecryptionError)
  | kmsGeneration (e : KMSGenerationError)
  | gatewayConfig (e : GatewayConfigError)

/-- The interfaces are tried one after the other. -/
def ErrorPayload.contractError (payload : ErrorPayload) : Option ContractError :=
  match payload.decryptionErrors with
  | some e => some (.decryption e)
  | none =>
    match payload.kmsGenerationErrors with
    | some e => some (.kmsGeneration e)
    | none => payload.gatewayConfigErrors.map .gatewayConfig

inductive SendError
  | irrecoverable (e : ContractError)
  | recoverable
  | alloyBackendGone

/-- `From<RpcError<TransportErrorKind>>` -/
def SendError.ofRpcError : RpcError ErrorPayload → SendError
  | .transport .backendGone => .alloyBackendGone
  | value =>
    match value.asErrorResp.bind ErrorPayload.contractError with
    | some e => .irrecoverable e
    | none => .recoverable

/-! ## Attempts -/

/-- What the node answers to the two requests of an attempt. -/
structure Attempt where
  estimateGas : Except (RpcError ErrorPayload) ℕ
  sendTransactionSync : Except (RpcError ErrorPayload) TransactionReceipt

/-- A transaction that is reverted in its block is tried again. -/
def sendTxSyncWithIncreasedGasLimit (a : Attempt) : Except SendError TransactionReceipt := do
  let _ ← a.estimateGas.mapError .ofRpcError
  let receipt ← a.sendTransactionSync.mapError .ofRpcError
  require (receipt.status = true) .recoverable
  return receipt

/-- The attempts are as many as `tx_retries`. -/
def sendTxSyncWithRetry : List Attempt → Except SendError TransactionReceipt
  | [] => .error .recoverable
  | a :: attempts =>
    match sendTxSyncWithIncreasedGasLimit a with
    | .error .recoverable => sendTxSyncWithRetry attempts
    | result => result

def sendToGateway (attempts : List Attempt) : SendOutcome :=
  match sendTxSyncWithRetry attempts with
  | .ok _ => .succeeded
  | .error (.irrecoverable _) => .irrecoverable
  | .error .recoverable => .recoverable
  | .error .alloyBackendGone => .alloyBackendGone

/-! ## How an attempt ends -/

/-- The transaction is in a block, and has not been reverted. -/
def Attempt.Succeeds (a : Attempt) : Prop :=
  (∃ gas, a.estimateGas = .ok gas) ∧
    ∃ receipt, a.sendTransactionSync = .ok receipt ∧ receipt.status = true

/-- A request of the attempt is answered with an error of a contract. -/
def Attempt.Rejected (a : Attempt) (e : ContractError) : Prop :=
  ∃ payload : ErrorPayload, payload.contractError = some e ∧
    (a.estimateGas = .error (.errorResp payload) ∨
      ((∃ gas, a.estimateGas = .ok gas) ∧ a.sendTransactionSync = .error (.errorResp payload)))

/-- The attempts come to one that succeeds or is rejected, after others that do not count. -/
def Decided (attempts : List Attempt) : Prop :=
  ∃ tries a later, attempts = tries ++ a :: later ∧
    (∀ b ∈ tries, sendTxSyncWithIncreasedGasLimit b = .error .recoverable) ∧
      (a.Succeeds ∨ ∃ e, a.Rejected e)

theorem ofRpcError_eq_irrecoverable {value : RpcError ErrorPayload} {e : ContractError} :
    SendError.ofRpcError value = .irrecoverable e ↔
      ∃ payload, value = .errorResp payload ∧ payload.contractError = some e := by
  unfold SendError.ofRpcError
  split
  · simp
  · cases value with
    | errorResp payload =>
      simp only [RpcError.asErrorResp, Option.bind_some, RpcError.errorResp.injEq, exists_eq_left']
      split <;> simp_all
    | _ => simp [RpcError.asErrorResp]

theorem succeeds_iff {a : Attempt} :
    (∃ receipt, sendTxSyncWithIncreasedGasLimit a = .ok receipt) ↔ a.Succeeds := by
  simp only [sendTxSyncWithIncreasedGasLimit, bind_eq_ok, mapError_eq_ok, require_eq_ok, pure_eq_ok,
    Attempt.Succeeds]
  grind

theorem rejected_iff {a : Attempt} {e : ContractError} :
    sendTxSyncWithIncreasedGasLimit a = .error (.irrecoverable e) ↔ a.Rejected e := by
  have hpure : ∀ receipt : TransactionReceipt,
      (pure receipt : Except SendError TransactionReceipt) ≠ .error (.irrecoverable e) := nofun
  simp only [sendTxSyncWithIncreasedGasLimit, bind_eq_error, mapError_eq_error, mapError_eq_ok,
    ofRpcError_eq_irrecoverable, require_eq_error, Attempt.Rejected]
  grind

theorem Decided.cons {a : Attempt} {attempts : List Attempt}
    (ha : sendTxSyncWithIncreasedGasLimit a = .error .recoverable) :
    Decided (a :: attempts) ↔ Decided attempts := by
  constructor
  · rintro ⟨tries, b, later, heq, htries, hb⟩
    cases tries with
    | nil =>
      obtain ⟨rfl, rfl⟩ := List.cons.inj heq
      obtain hok | ⟨e, he⟩ := hb
      · obtain ⟨receipt, hreceipt⟩ := succeeds_iff.mpr hok
        rw [ha] at hreceipt
        cases hreceipt
      · rw [← rejected_iff, ha] at he
        cases he
    | cons c tries =>
      obtain ⟨rfl, rfl⟩ := List.cons.inj heq
      exact ⟨tries, b, later, rfl, fun d hd => htries d (List.mem_cons_of_mem _ hd), hb⟩
  · rintro ⟨tries, b, later, rfl, htries, hb⟩
    refine ⟨a :: tries, b, later, rfl, fun d hd => ?_, hb⟩
    obtain rfl | hd := List.mem_cons.mp hd
    · exact ha
    · exact htries d hd

/-- An attempt that counts is the one that decides. -/
theorem decided_of_head {a : Attempt} {attempts : List Attempt}
    (ha : sendTxSyncWithIncreasedGasLimit a ≠ .error .recoverable) :
    Decided (a :: attempts) ↔ a.Succeeds ∨ ∃ e, a.Rejected e := by
  constructor
  · rintro ⟨tries, b, later, heq, htries, hb⟩
    cases tries with
    | nil =>
      obtain ⟨rfl, rfl⟩ := List.cons.inj heq
      exact hb
    | cons c tries =>
      obtain ⟨rfl, rfl⟩ := List.cons.inj heq
      exact absurd (htries a List.mem_cons_self) ha
  · intro hcounts
    exact ⟨[], a, attempts, rfl, by simp, hcounts⟩

/-- The sending ends well, or in an irrecoverable error, exactly if its attempts are decided. -/
theorem decided_iff {attempts : List Attempt} :
    sendToGateway attempts = .succeeded ∨ sendToGateway attempts = .irrecoverable ↔
      Decided attempts := by
  induction attempts with
  | nil => simp [sendToGateway, sendTxSyncWithRetry, Decided]
  | cons a attempts ih =>
    cases ha : sendTxSyncWithIncreasedGasLimit a with
    | ok receipt =>
      rw [decided_of_head (by simp [ha]), ← succeeds_iff]
      simp [sendToGateway, sendTxSyncWithRetry, ha]
    | error e =>
      cases e with
      | recoverable =>
        rw [Decided.cons ha, ← ih]
        simp [sendToGateway, sendTxSyncWithRetry, ha]
      | irrecoverable e =>
        rw [decided_of_head (by simp [ha])]
        simp only [sendToGateway, sendTxSyncWithRetry, ha, reduceCtorEq, or_true, true_iff]
        exact .inr ⟨e, rejected_iff.mp ha⟩
      | alloyBackendGone =>
        rw [decided_of_head (by simp [ha]), ← succeeds_iff]
        simp [sendToGateway, sendTxSyncWithRetry, ← rejected_iff, ha]

/-! ## Calls -/

def KeyDigestDbItem.keyDigest (item : KeyDigestDbItem) : KeyDigest where
  keyType := match item.keyType with
    | .serverKey => .serverKey
    | .publicKey => .publicKey
  digest := item.digest

/-- The call that carries the response. -/
def KmsResponseKind.call : KmsResponseKind → GatewayCall
  | .publicDecryption decryptionId decryptedResult signature extraData =>
    .decryption (.publicDecryptionResponse decryptionId.toNat decryptedResult signature extraData)
  | .userDecryption decryptionId userDecryptedShares signature extraData =>
    .decryption (.userDecryptionResponse decryptionId.toNat userDecryptedShares signature extraData)
  | .prepKeygen prepKeygenId signature => .kms (.prepKeygenResponse prepKeygenId.toNat signature)
  | .keygen keyId keyDigests signature =>
    .kms (.keygenResponse keyId.toNat (keyDigests.map KeyDigestDbItem.keyDigest) signature)
  | .crsgen crsId crsDigest signature => .kms (.crsgenResponse crsId.toNat crsDigest signature)

/-- The error of a contract, as the node returns it and the sender decodes it. An overflow is a
panic, which is no error of the interfaces. -/
def payloadOf : GatewayError → ErrorPayload
  | .decryption (.shared .overflow) => ⟨none, none, none⟩
  | .decryption e => ⟨some e, none, none⟩
  | .kms .overflow => ⟨none, none, none⟩
  | .kms e => ⟨none, some e, none⟩
  | .config e => ⟨none, none, some e⟩
  | _ => ⟨none, none, none⟩

end Fhevm.KmsConnector
