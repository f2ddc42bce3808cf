import Fhevm.Common.Evm
import Fhevm.Foundation.RowTasks
import Fhevm.Gateway.Allow
import Fhevm.TransactionSender.AddCiphertext
import Fhevm.ZkProof.VerifyProofs

/-!
# The operations of the transaction sender

An operation picks a batch of rows, sends a transaction for each in a task of its own, and keeps the
books of the row when the transaction has come to an end. The call returns at the first error of a
task, and the tasks that are left are dropped.

## Main definitions

* `TxnResult` — how the transaction of a row ends.
* `Bookkeeping`, `ProofBookkeeping` — what is written to the row then.
* `multichainACLOperation`, `addCiphertextOperation`, `verifyProofOperation` — the operations.
-/

namespace Fhevm.TransactionSender

open Foundation Gateway

/-! ## Transactions -/

/-- How the transaction of a row ends. -/
inductive TxnResult (ε : Type)
  | sendError (e : RpcError ε)
  | receiptError
  | receipt (receipt : TransactionReceipt)
deriving DecidableEq, Repr

/-- What is written to a row that stays in its table. -/
inductive Bookkeeping
  | sent (txnHash : Option Bytes32) (txnBlockNumber : Option ℤ)
  | limitedRetry
  | unlimitedRetry
deriving DecidableEq, Repr

/-- The task returns the errors that it has written down. -/
def Bookkeeping.ok : Bookkeeping → Bool
  | .sent _ _ => true
  | .limitedRetry | .unlimitedRetry => false

/-- Errors that are retried without a limit. -/
def RpcError.isUnlimited {ε : Type} : RpcError ε → Bool
  | .transport .backendGone => true
  | .transport (.other isRetryErr) => isRetryErr
  | .localUsageError => true
  | _ => false

/-- `as i64` -/
def asI64 (n : ℕ) : ℤ := (BitVec.ofNat 64 n).toInt

/-- The course of `send_transaction`; `alreadyDone` is the error that the entry is there already. -/
def bookkeeping {ε : Type} (alreadyDone : ε → Option Address) : TxnResult ε → Bookkeeping
  | .sendError e =>
    if (e.asErrorResp.bind alreadyDone).isSome then .sent none none
    else if RpcError.isUnlimited e then .unlimitedRetry
    else .limitedRetry
  | .receiptError => .limitedRetry
  | .receipt receipt =>
    if receipt.status then .sent (some receipt.transactionHash) (receipt.blockNumber.map asI64)
    else .limitedRetry

/-- `try_into_array::<32>` -/
def tryIntoArray (bytes : Bytes) : Option Bytes32 :=
  if bytes.length = 32 then some (BitVec.ofNat 256 (BigEndian.decode bytes)) else none

/-! ## Permissions -/

/-- A row of `allowed_handles`. -/
structure AllowedHandleRow where
  tenantId : ℕ
  handle : Bytes
  accountAddress : String
  eventType : ℤ
  txnIsSent : Bool := false
  txnHash : Option Bytes32 := none
  txnBlockNumber : Option ℤ := none
  txnLimitedRetriesCount : ℕ := 0
  txnUnlimitedRetriesCount : ℕ := 0
deriving DecidableEq, Repr

def AllowedHandleRow.key (row : AllowedHandleRow) : ℕ × Bytes × String :=
  (row.tenantId, row.handle, row.accountAddress)

inductive AllowEvents
  | allowedAccount
  | allowedForDecryption
deriving DecidableEq, Repr

def AllowEvents.tryFrom (value : ℤ) : Option AllowEvents :=
  if value = 0 then some .allowedAccount
  else if value = 1 then some .allowedForDecryption
  else none

inductive MultichainACLErrors
  | coprocessorAlreadyAllowedAccount (txSender : Address)
  | coprocessorAlreadyAllowedPublicDecrypt (txSender : Address)
deriving DecidableEq, Repr

/-- What an operation is set up with, and what it finds in the table of tenants. -/
structure SenderSetup where
  tenants : GwListener.Tenants
  maxRetries : ℕ
  batchLimit : ℕ
  /-- `Address::from_str` -/
  addressFromStr : String → Option Address

def alreadyAllowedError : Option MultichainACLErrors → Option Address
  | some (.coprocessorAlreadyAllowedAccount txSender) => some txSender
  | some (.coprocessorAlreadyAllowedPublicDecrypt txSender) => some txSender
  | none => none

def prepareAllow (S : SenderSetup) (row : AllowedHandleRow) : Preparation AllowCall :=
  match queryTenantInfo S.tenants row.tenantId with
  | none => .skip
  | some _ =>
    match AllowEvents.tryFrom row.eventType with
    | none => .skip
    | some eventType =>
      match tryIntoArray row.handle with
      | none => .abort
      | some handle =>
        match eventType with
        | .allowedForDecryption => .request ⟨.publicDecrypt handle, []⟩
        | .allowedAccount =>
          match S.addressFromStr row.accountAddress with
          | some address => .request ⟨.account handle address, []⟩
          | none => .skip

def Bookkeeping.allowedHandle : Bookkeeping → AllowedHandleRow → AllowedHandleRow
  | .sent txnHash txnBlockNumber, row => { row with txnIsSent := true, txnHash, txnBlockNumber }
  | .limitedRetry, row => { row with txnLimitedRetriesCount := row.txnLimitedRetriesCount + 1 }
  | .unlimitedRetry, row =>
    { row with txnUnlimitedRetriesCount := row.txnUnlimitedRetriesCount + 1 }

/-- `MultichainACLOperation`: the statements select by the whole primary key. -/
def multichainACLOperation (S : SenderSetup) :
    RowOperation AllowedHandleRow (ℕ × Bytes × String) AllowCall Bookkeeping where
  key := AllowedHandleRow.key
  pending row := row.txnIsSent = false ∧ row.txnLimitedRetriesCount < S.maxRetries
  batchLimit := S.batchLimit
  prepare := prepareAllow S
  selects k k' := k' = k
  statement e := .update e.allowedHandle fun _ => by cases e <;> rfl
  ok := Bookkeeping.ok

/-! ## Ciphertexts -/

/-- A row of `ciphertext_digest`, with the columns of its transaction. -/
structure CiphertextDigestRow where
  tenantId : ℕ
  handle : Bytes
  ciphertext : Option Bytes
  ciphertext128 : Option Bytes
  txnIsSent : Bool := false
  txnHash : Option Bytes32 := none
  txnBlockNumber : Option ℤ := none
  txnLimitedRetriesCount : ℕ := 0
  txnUnlimitedRetriesCount : ℕ := 0
deriving DecidableEq, Repr

def CiphertextDigestRow.key (row : CiphertextDigestRow) : ℕ × Bytes := (row.tenantId, row.handle)

inductive CiphertextCommitsErrors
  | coprocessorAlreadyAdded (coprocessorTxSenderAddress : Address)
deriving DecidableEq, Repr

def alreadyAddedError : Option CiphertextCommitsErrors → Option Address
  | some (.coprocessorAlreadyAdded txSender) => some txSender
  | none => none

def prepareAddCiphertext (S : SenderSetup) (row : CiphertextDigestRow) :
    Preparation AddCiphertextMaterial :=
  match queryTenantInfo S.tenants row.tenantId with
  | none => .skip
  | some keyId =>
    match row.ciphertext, row.ciphertext128 with
    | some ct, some ct128 =>
      match tryIntoArray ct, tryIntoArray ct128, tryIntoArray row.handle with
      | some ciphertextDigest, some snsCiphertextDigest, some ctHandle =>
        .request ⟨ctHandle, BigEndian.decode keyId, ciphertextDigest, snsCiphertextDigest⟩
      | _, _, _ => .abort
    | _, _ => .skip

def Bookkeeping.ciphertextDigest : Bookkeeping → CiphertextDigestRow → CiphertextDigestRow
  | .sent txnHash txnBlockNumber, row => { row with txnIsSent := true, txnHash, txnBlockNumber }
  | .limitedRetry, row => { row with txnLimitedRetriesCount := row.txnLimitedRetriesCount + 1 }
  | .unlimitedRetry, row =>
    { row with txnUnlimitedRetriesCount := row.txnUnlimitedRetriesCount + 1 }

/-- `AddCiphertextOperation`: the statements select by the handle only. -/
def addCiphertextOperation (S : SenderSetup) :
    RowOperation CiphertextDigestRow (ℕ × Bytes) AddCiphertextMaterial Bookkeeping where
  key := CiphertextDigestRow.key
  pending row := row.txnIsSent = false ∧ row.ciphertext ≠ none ∧ row.ciphertext128 ≠ none ∧
    row.txnLimitedRetriesCount < S.maxRetries
  batchLimit := S.batchLimit
  prepare := prepareAddCiphertext S
  selects k k' := k'.2 = k.2
  statement e := .update e.ciphertextDigest fun _ => by cases e <;> rfl
  ok := Bookkeeping.ok

/-! ## Proofs -/

/-- A row of `verify_proofs`, as far as it is answered. -/
structure VerifyProofRow where
  zkProofId : Int64
  chainId : Int64
  contractAddress : String
  userAddress : String
  extraData : Bytes
  handles : Option Bytes := none
  verified : Option Bool := none
  retryCount : ℕ := 0
deriving DecidableEq

inductive InputVerificationErrors
  | coprocessorAlreadyVerified
  | coprocessorAlreadyRejected
  | other
deriving DecidableEq, Repr

inductive ProofBookkeeping
  | removed
  | retry
deriving DecidableEq, Repr

def ProofBookkeeping.ok : ProofBookkeeping → Bool
  | .removed => true
  | .retry => false

/-- `process_proof` -/
def proofBookkeeping : TxnResult (Option InputVerificationErrors) → ProofBookkeeping
  | .sendError e =>
    match e.asErrorResp.bind id with
    | some .coprocessorAlreadyVerified => .removed
    | some .coprocessorAlreadyRejected => .removed
    | _ => .retry
  | .receiptError => .retry
  | .receipt receipt => if receipt.status then .removed else .retry

/-- What the answers to proofs are set up with. The signer may fail. -/
structure ProofSetup where
  gwChainId : UInt64
  inputVerificationAddress : Address
  keccak256 : Bytes → Bytes32
  signHash : Bytes32 → Option Bytes
  addressFromStr : String → Option Address
  maxRetries : ℕ
  batchLimit : ℕ

/-- The row with its addresses read, as it is signed. -/
def VerifyProofRow.signed (row : VerifyProofRow) (userAddress contractAddress : Address) :
    ZkProof.VerifyProof where
  zkProofId := row.zkProofId
  chainId := row.chainId
  contractAddress := contractAddress
  userAddress := userAddress
  input := []
  extraData := row.extraData

def ProofSetup.domain (S : ProofSetup) : Sdk.SolStruct where
  name := "EIP712Domain"
  fields := [("name", .string "InputVerification"), ("version", .string "1"),
    ("chainId", .uint256 S.gwChainId.toNat),
    ("verifyingContract", .address S.inputVerificationAddress)]

/-- An address that cannot be read is a panic, which ends the call as an error does. -/
def prepareProof (S : ProofSetup) (row : VerifyProofRow) : Preparation ZkProof.TransactionRequest :=
  match row.verified with
  | some true =>
    match row.handles with
    | none => .abort
    | some handles =>
      if handles.length % 32 ≠ 0 then .remove
      else
        match S.addressFromStr row.userAddress, S.addressFromStr row.contractAddress with
        | some userAddress, some contractAddress =>
          let handles := ZkProof.chunks (handles.length / 32) handles
          let signingHash :=
            (ZkProof.ciphertextVerification handles
              (row.signed userAddress contractAddress)).eip712SigningHash S.keccak256 S.domain
          match S.signHash signingHash with
          | some signature =>
            .request (.verifyProofResponse row.zkProofId handles signature row.extraData)
          | none => .abort
        | _, _ => .abort
  | some false => .request (.rejectProofResponse row.zkProofId row.extraData)
  | none => .skip

/-- `VerifyProofOperation` -/
def verifyProofOperation (S : ProofSetup) :
    RowOperation VerifyProofRow Int64 ZkProof.TransactionRequest ProofBookkeeping where
  key := VerifyProofRow.zkProofId
  pending row := row.verified ≠ none ∧ row.retryCount < S.maxRetries
  batchLimit := S.batchLimit
  prepare := prepareProof S
  selects k k' := k' = k
  statement
    | .removed => .delete
    | .retry => .update (fun row => { row with retryCount := row.retryCount + 1 }) fun _ => rfl
  ok := ProofBookkeeping.ok

end Fhevm.TransactionSender
