import Fhevm.Foundation.System
import Fhevm.Sdk.Eip712
import Fhevm.Worker.Database
import Fhevm.ZkProof.Verifier

/-!
# Requests to verify input proofs

A coprocessor keeps the requests of the gateway in a table. Its listener inserts them, workers
verify them, and the transaction sender answers them.

## Main definitions

* `VerifyProof`, `ZkDatabase` — the table of the requests, and that of the ciphertexts.
* `verifyProofRequest` — the listener on an event of the gateway.
* `executeVerifyProofRoutine` — a worker on a request.
* `prepareResponse` — the answer that the transaction sender signs.
* `zkProofs` — the system of the three.
-/

namespace Fhevm.ZkProof

open Foundation Contract Host

/-! ## Tables -/

/-- A row of `verify_proofs`. The texts of addresses are those that the addresses print as. -/
structure VerifyProof where
  zkProofId : Int64
  chainId : Int64
  contractAddress : Address
  userAddress : Address
  input : Bytes
  extraData : Bytes
  handles : Option Bytes := none
  verified : Option Bool := none
  retryCount : ℕ := 0
deriving DecidableEq

structure ZkDatabase where
  verifyProofs : Table VerifyProof.zkProofId
  ciphertexts : Table Worker.Ciphertext.key

/-! ## The listener -/

/-- The event of the gateway. -/
structure VerifyProofRequest where
  zkProofId : ℕ
  contractChainId : ℕ
  contractAddress : Address
  userAddress : Address
  ciphertextWithZKProof : Bytes
  extraData : Bytes
deriving DecidableEq

/-- `to::<i64>()`, which panics on larger numbers. -/
def toI64 (n : ℕ) : Option Int64 := if n < 2 ^ 63 then some (Int64.ofNat n) else none

theorem toI64_eq_some {n : ℕ} {k : Int64} : toI64 n = some k ↔ n < 2 ^ 63 ∧ k.toInt = n := by
  unfold toI64
  split_ifs with hn
  · rw [Option.some.injEq, and_iff_right hn]
    constructor
    · rintro rfl
      exact Int64.toInt_ofNat_of_lt hn
    · intro hk
      exact Int64.toInt_inj.mp ((Int64.toInt_ofNat_of_lt hn).trans hk.symm)
  · exact iff_of_false (by simp) fun h => hn h.1

/-- The row of a request. -/
def VerifyProofRequest.row (request : VerifyProofRequest) : Option VerifyProof := do
  let chainId ← toI64 request.contractChainId
  let zkProofId ← toI64 request.zkProofId
  return {
    zkProofId, chainId
    contractAddress := request.contractAddress
    userAddress := request.userAddress
    input := request.ciphertextWithZKProof
    extraData := request.extraData }

def verifyProofRequest (request : VerifyProofRequest) (db : ZkDatabase) : Option ZkDatabase :=
  request.row.map fun row => { db with verifyProofs := db.verifyProofs.insert row }

/-! ## The worker -/

/-- A row of `tenants`, as far as the worker reads it besides the keys. -/
structure Tenant where
  tenantId : ℤ
  aclContractAddress : Address

/-- What a proof is checked against. -/
def VerifyProof.aux (row : VerifyProof) (tenant : Tenant) : ZkData where
  contractAddress := row.contractAddress
  userAddress := row.userAddress
  aclContractAddress := tenant.aclContractAddress
  chainId := row.chainId

/-- The row of the table for a ciphertext. -/
def Ciphertext.row (tenant : Tenant) (ct : Ciphertext) : Worker.Ciphertext where
  tenantId := tenant.tenantId
  handle := ct.handle
  ciphertext := ct.compressed
  ciphertextVersion := ct.ctVersion.toNat
  ciphertextType := ct.ctType

def setVerified (db : ZkDatabase) (requestId : Int64) (handles : Bytes) (verified : Bool) :
    ZkDatabase :=
  { db with
    verifyProofs := db.verifyProofs.update (fun row => row.zkProofId = requestId)
      (fun row => { row with handles := some handles, verified := some verified }) fun _ => rfl }

section Worker

variable (keccak256 : Bytes → Bytes32) {L R : Type}

/-- The transaction of a request, with the keys of its tenant. A panic leaves no trace. -/
def executeVerifyProofRoutine (tenant : Tenant) (T : ProofLibrary L R) (row : VerifyProof)
    (db : ZkDatabase) : Option ZkDatabase :=
  match verifyProof keccak256 T row.zkProofId.toInt (row.aux tenant) row.input with
  | .ok (cts, _) =>
    let handlesBytes := cts.flatMap Ciphertext.handle
    let db := { db with ciphertexts := db.ciphertexts.insertAll (cts.map (Ciphertext.row tenant)) }
    some (setVerified db row.zkProofId handlesBytes true)
  | .error .joinError => none
  | .error _ => some (setVerified db row.zkProofId [] false)

end Worker

/-! ## The transaction sender -/

structure SenderConfig where
  gwChainId : UInt64
  inputVerificationAddress : Address
  verifyProofRespMaxRetries : ℕ
  keccak256 : Bytes → Bytes32
  signHash : Bytes32 → Bytes

/-- The struct that a coprocessor signs. -/
def ciphertextVerification (ctHandles : List Bytes32) (row : VerifyProof) : Sdk.SolStruct where
  name := "CiphertextVerification"
  fields := [("ctHandles", .bytes32s ctHandles), ("userAddress", .address row.userAddress),
    ("contractAddress", .address row.contractAddress),
    ("contractChainId", .uint256 row.chainId.toInt.toNat), ("extraData", .bytes row.extraData)]

/-- `eip712_domain!` -/
def SenderConfig.domain (C : SenderConfig) : Sdk.SolStruct where
  name := "EIP712Domain"
  fields := [("name", .string "InputVerification"), ("version", .string "1"),
    ("chainId", .uint256 C.gwChainId.toNat), ("verifyingContract", .address C.inputVerificationAddress)]

/-- So many words, in order. -/
def chunks : ℕ → Bytes → List Bytes32
  | 0, _ => []
  | n + 1, bytes => BitVec.ofNat 256 (BigEndian.decode (bytes.take 32)) :: chunks n (bytes.drop 32)

/-- A transaction to the gateway. -/
inductive TransactionRequest
  | verifyProofResponse (zkProofId : Int64) (handles : List Bytes32) (signature extraData : Bytes)
  | rejectProofResponse (zkProofId : Int64) (extraData : Bytes)
deriving DecidableEq

/-- What is prepared for a row that has been read. A row with bad handles is removed. -/
inductive Prepared
  | send (request : TransactionRequest)
  | remove
  | skip

def prepareResponse (C : SenderConfig) (row : VerifyProof) : Prepared :=
  match row.verified with
  | some true =>
    match row.handles with
    | none => .skip
    | some handles =>
      if handles.length % 32 ≠ 0 then .remove
      else
        let handles := chunks (handles.length / 32) handles
        let signingHash :=
          (ciphertextVerification handles row).eip712SigningHash C.keccak256 C.domain
        .send (.verifyProofResponse row.zkProofId handles (C.signHash signingHash) row.extraData)
  | some false => .send (.rejectProofResponse row.zkProofId row.extraData)
  | none => .skip

def removeProofById (db : ZkDatabase) (zkProofId : Int64) : ZkDatabase :=
  { db with verifyProofs := db.verifyProofs.delete fun row => row.zkProofId = zkProofId }

def updateRetryCountByProofId (db : ZkDatabase) (zkProofId : Int64) : ZkDatabase :=
  { db with
    verifyProofs := db.verifyProofs.update (fun row => row.zkProofId = zkProofId)
      (fun row => { row with retryCount := row.retryCount + 1 }) fun _ => rfl }

def removeProofsByRetryCount (C : SenderConfig) (db : ZkDatabase) : ZkDatabase :=
  { db with
    verifyProofs := db.verifyProofs.delete fun row => C.verifyProofRespMaxRetries ≤ row.retryCount }

/-! ## The system -/

structure ZkState where
  db : ZkDatabase
  /-- The transactions that have been signed, newest first. -/
  signed : List TransactionRequest

/-- The services take turns in any order. A statement that fails is a turn that is not taken. -/
inductive ZkInput (L R : Type)
  | event (request : VerifyProofRequest)
  /-- A worker takes a request that is not locked, with the keys that it has fetched. -/
  | verify (requestId : Int64) (keys : ProofLibrary L R)
  /-- The sender reads a row and prepares its transaction. -/
  | prepare (zkProofId : Int64)
  /-- The transaction of a row has gone through, or not. -/
  | sent (zkProofId : Int64) (done : Bool)
  | removeByRetryCount

section System

variable (C : SenderConfig) (tenants : Int64 → Option Tenant) {L R : Type}

def ZkState.step (s : ZkState) : ZkInput L R → Option ZkState
  | .event request => (verifyProofRequest request s.db).map fun db => { s with db }
  | .verify requestId keys => do
    let row ← s.db.verifyProofs.get? requestId
    guard (row.verified = none)
    let tenant ← tenants row.chainId
    let db ← executeVerifyProofRoutine C.keccak256 tenant keys row s.db
    return { s with db }
  | .prepare zkProofId => do
    let row ← s.db.verifyProofs.get? zkProofId
    guard (row.verified ≠ none ∧ row.retryCount < C.verifyProofRespMaxRetries)
    match prepareResponse C row with
    | .send request => return { s with signed := request :: s.signed }
    | .remove => return { s with db := removeProofById s.db zkProofId }
    | .skip => return s
  | .sent zkProofId done =>
    some { s with
      db := if done then removeProofById s.db zkProofId
        else updateRetryCountByProofId s.db zkProofId }
  | .removeByRetryCount => some { s with db := removeProofsByRetryCount C s.db }

def zkProofs : System ZkState (ZkInput L R) where
  init := ⟨⟨⟨[], .nil⟩, ⟨[], .nil⟩⟩, []⟩
  step := ZkState.step C tenants

end System

end Fhevm.ZkProof
