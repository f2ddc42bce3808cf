import Fhevm.Common.Types
import Fhevm.Host.ACL
import Fhevm.Host.Handle

/-!
# Verification of input proofs

The worker that checks the proof of a list of inputs. It expands the list and gives each
ciphertext a handle: a hash over the hash of the list, with an index, the chain, a type and
a version written over its last bytes.

## Main definitions

* `ProofLibrary` — what the FHE library does with a list.
* `ZkData` — what the proof is bound to.
* `createCiphertext`, `verifyProof` — a ciphertext with its handle, and all of a list.
-/

namespace Fhevm.ZkProof

open Foundation Contract Host

/-! ## What the worker is given -/

inductive ExecutionError
  | deserializationError (text : String)
  | invalidProof (requestId : Int) (text : String)
  /-- The library knows the kind, but the coprocessor has no ciphertexts of it. -/
  | ciphertextExpansionUnsupportedCiphertextKind (kind : FheType)
  /-- The blocking task has panicked. -/
  | joinError
  | tooManyInputs (len : Nat)
deriving DecidableEq, Repr

/-- The part of the FHE library that reads lists of inputs, with the keys of a tenant. Kinds are
numbered as in Solidity. -/
structure ProofLibrary (L R : Type) where
  safeDeserializeConformant : Bytes → Except String L
  len : L → Nat
  verifyAndExpand : L → Bytes → Except String (List (FheType × R))
  addReRandomizationMetadata : R → Bytes → R
  compress : SupportedFheCiphertexts R → Bytes

structure ZkData where
  contractAddress : Address
  userAddress : Address
  aclContractAddress : Address
  chainId : Int64

/-- `U256::from(chain_id).to_be_bytes()`, which is a panic on negative numbers. -/
def chainIdBytes (chainId : Int64) : Except ExecutionError Bytes := do
  require (0 ≤ chainId.toInt) .joinError
  return BigEndian.encode 32 chainId.toInt.toNat

/-- `contract_addr || user_addr || acl_contract_addr || chain_id` -/
def ZkData.assemble (aux : ZkData) : Except ExecutionError Bytes := do
  let chainIdBytes ← chainIdBytes aux.chainId
  return addressBytes aux.contractAddress ++ addressBytes aux.userAddress ++
    addressBytes aux.aclContractAddress ++ chainIdBytes

/-! ## The expanded list -/

/-- The type of the ciphertexts of a kind, for the kinds that the coprocessor holds. -/
def supportedType : FheType → Option FheTypes
  | .bool => some .fheBool
  | .uint4 => some .fheUint4
  | .uint8 => some .fheUint8
  | .uint16 => some .fheUint16
  | .uint32 => some .fheUint32
  | .uint64 => some .fheUint64
  | .uint128 => some .fheUint128
  | .uint160 => some .fheUint160
  | .uint256 => some .fheUint256
  | .uint512 => some .fheBytes64
  | .uint1024 => some .fheBytes128
  | .uint2048 => some .fheBytes256
  | _ => none

theorem num_supportedType {kind : FheType} {type : FheTypes} (h : supportedType kind = some type) :
    type.num = kind.toNat := by
  cases kind <;> cases h <;> rfl

section Verify

variable {L R : Type}

/-- One entry of the expanded list. -/
def extractCt (entry : FheType × R) : Except ExecutionError (SupportedFheCiphertexts R) :=
  match supportedType entry.1 with
  | some type => .ok (.enc type entry.2)
  | none => .error (.ciphertextExpansionUnsupportedCiphertextKind entry.1)

def extractCtList (expanded : List (FheType × R)) :
    Except ExecutionError (List (SupportedFheCiphertexts R)) :=
  expanded.mapM extractCt

theorem typeNum_of_extractCt {entry : FheType × R} {ct : SupportedFheCiphertexts R}
    (h : extractCt entry = .ok ct) : ct.typeNum = entry.1.toNat := by
  unfold extractCt at h
  split at h
  · next type htype =>
    cases h
    exact num_supportedType htype
  · cases h

def MAX_INPUT_INDEX : UInt8 := 254

def tryVerifyAndExpandCiphertextList (T : ProofLibrary L R) (requestId : Int) (rawCt : Bytes)
    (aux : ZkData) : Except ExecutionError (List (SupportedFheCiphertexts R)) := do
  let auxDataBytes ← aux.assemble
  let theList ← (T.safeDeserializeConformant rawCt).mapError .deserializationError
  -- expanding an empty list would panic
  if T.len theList = 0 then return []
  require (T.len theList ≤ MAX_INPUT_INDEX.toNat + 1) (.tooManyInputs (T.len theList))
  let expanded ← (T.verifyAndExpand theList auxDataBytes).mapError (.invalidProof requestId)
  extractCtList expanded

/-! ## Handles -/

/-- `b"ZK-w_rct"` -/
def RAW_CT_HASH_DOMAIN_SEPARATOR : Bytes := [0x5a, 0x4b, 0x2d, 0x77, 0x5f, 0x72, 0x63, 0x74]

/-- `b"ZK-w_hdl"` -/
def HANDLE_HASH_DOMAIN_SEPARATOR : Bytes := [0x5a, 0x4b, 0x2d, 0x77, 0x5f, 0x68, 0x64, 0x6c]

example : RAW_CT_HASH_DOMAIN_SEPARATOR = "ZK-w_rct".toUTF8.toList ∧
    HANDLE_HASH_DOMAIN_SEPARATOR = "ZK-w_hdl".toUTF8.toList := by decide +kernel

def currentCiphertextVersion : UInt8 := 0

/-- A ciphertext of the database. -/
structure Ciphertext where
  handle : Bytes
  compressed : Bytes
  ctType : Nat
  ctVersion : UInt8
deriving DecidableEq, Repr

/-- What is hashed for the handle at an index. -/
def handlePreimage (blobHash : Bytes) (ctIdx : Nat) (acl : Address) (chainIdBytes : Bytes) :
    Bytes :=
  HANDLE_HASH_DOMAIN_SEPARATOR ++ blobHash ++ [UInt8.ofNat ctIdx] ++ addressBytes acl ++
    chainIdBytes

/-- Data that goes with a ciphertext of the library when it is randomised again. -/
def addReRandomizationMetadata (T : ProofLibrary L R) :
    SupportedFheCiphertexts R → Bytes → SupportedFheCiphertexts R
  | .enc type ct, hashData => .enc type (T.addReRandomizationMetadata ct hashData)
  | .scalar bytes, _ => .scalar bytes

@[simp] theorem typeNum_addReRandomizationMetadata (T : ProofLibrary L R)
    (ct : SupportedFheCiphertexts R) (hashData : Bytes) :
    (addReRandomizationMetadata T ct hashData).typeNum = ct.typeNum := by
  cases ct <;> rfl

variable (keccak256 : Bytes → Bytes32)

def createCiphertext (T : ProofLibrary L R) (blobHash : Bytes) (ctIdx : Nat)
    (theCt : SupportedFheCiphertexts R) (aux : ZkData) : Except ExecutionError Ciphertext := do
  require (ctIdx ≤ MAX_INPUT_INDEX.toNat) (.tooManyInputs ctIdx)
  let chainIdBytes ← chainIdBytes aux.chainId
  let handle :=
    wordBytes (keccak256 (handlePreimage blobHash ctIdx aux.aclContractAddress chainIdBytes))
  -- the metadata of the ciphertext is the whole hash, not the truncated one
  let theCt := addReRandomizationMetadata T theCt handle
  let serializedType := theCt.typeNum
  let handle := BigEndian.copyFromSlice handle 21 [UInt8.ofNat ctIdx]
  let handle := BigEndian.copyFromSlice handle 22 (BigEndian.encode 8 aux.chainId.toUInt64.toNat)
  let handle := BigEndian.copyFromSlice handle 30 [UInt8.ofNat serializedType]
  let handle := BigEndian.copyFromSlice handle 31 [currentCiphertextVersion]
  return ⟨handle, T.compress theCt, serializedType, currentCiphertextVersion⟩

/-- The ciphertexts of a list with a valid proof, and the hash of the list. -/
def verifyProof (T : ProofLibrary L R) (requestId : Int) (aux : ZkData) (rawCt : Bytes) :
    Except ExecutionError (List Ciphertext × Bytes) := do
  let cts ← tryVerifyAndExpandCiphertextList T requestId rawCt aux
  let blobHash := wordBytes (keccak256 (RAW_CT_HASH_DOMAIN_SEPARATOR ++ rawCt))
  let cts ← cts.zipIdx.mapM fun ct => createCiphertext keccak256 T blobHash ct.2 ct.1 aux
  return (cts, blobHash)

/-! ## What a handle keeps of its hash -/

variable {keccak256}

theorem chainIdBytes_eq_ok {chainId : Int64} {bytes : Bytes} :
    chainIdBytes chainId = .ok bytes ↔
      0 ≤ chainId.toInt ∧ BigEndian.encode 32 chainId.toInt.toNat = bytes := by
  simp [chainIdBytes]

/-- The metadata is written behind the first 21 bytes of the hash. -/
theorem metadata_eq {hash chainId : Bytes} (index type version : UInt8)
    (hhash : hash.length = 32) (hchain : chainId.length = 8) :
    BigEndian.copyFromSlice (BigEndian.copyFromSlice (BigEndian.copyFromSlice
      (BigEndian.copyFromSlice hash 21 [index]) 22 chainId) 30 [type]) 31 [version] =
        hash.take 21 ++ (index :: chainId ++ [type, version]) := by
  have hfront : (hash.take 21).length = 21 := List.length_take_of_le (by omega)
  conv_lhs => rw [← List.take_append_drop 21 hash]
  rw [BigEndian.copyFromSlice_append _ hfront, BigEndian.copyFromSlice_append _ (by simp [hfront]),
    BigEndian.copyFromSlice_append _ (by simp [hfront, hchain]),
    BigEndian.copyFromSlice_append _ (by simp [hfront, hchain])]
  simp [hhash, hchain]

/-- A handle is the truncated hash, the index, the chain id, the type and the version. -/
theorem createCiphertext_handle {T : ProofLibrary L R} {blobHash : Bytes} {ctIdx : Nat}
    {theCt : SupportedFheCiphertexts R} {aux : ZkData} {ct : Ciphertext}
    (h : createCiphertext keccak256 T blobHash ctIdx theCt aux = .ok ct) :
    ct.handle = (wordBytes (keccak256 (handlePreimage blobHash ctIdx aux.aclContractAddress
        (BigEndian.encode 32 aux.chainId.toInt.toNat)))).take 21 ++
      (UInt8.ofNat ctIdx :: BigEndian.encode 8 aux.chainId.toUInt64.toNat ++
        [UInt8.ofNat theCt.typeNum, currentCiphertextVersion]) := by
  simp only [createCiphertext, bind_eq_ok, require_eq_ok, pure_eq_ok, chainIdBytes_eq_ok] at h
  obtain ⟨_, -, bytes, ⟨-, rfl⟩, rfl⟩ := h
  rw [← typeNum_addReRandomizationMetadata T theCt]
  exact metadata_eq _ _ _ (length_wordBytes _) (BigEndian.length_encode _ _)

/-- A list without inputs is valid and has no handles. -/
theorem verifyProof_nil {T : ProofLibrary L R} {requestId : Int} {aux : ZkData} {rawCt : Bytes}
    {theList : L} (hchain : 0 ≤ aux.chainId.toInt)
    (hlist : T.safeDeserializeConformant rawCt = .ok theList) (hlen : T.len theList = 0) :
    verifyProof keccak256 T requestId aux rawCt =
      .ok ([], wordBytes (keccak256 (RAW_CT_HASH_DOMAIN_SEPARATOR ++ rawCt))) := by
  have hexpanded : tryVerifyAndExpandCiphertextList T requestId rawCt aux = .ok [] := by
    simp only [tryVerifyAndExpandCiphertextList, ZkData.assemble, bind_eq_ok, chainIdBytes_eq_ok,
      pure_eq_ok]
    refine ⟨_, ⟨_, ⟨hchain, rfl⟩, rfl⟩, theList, by rw [hlist]; rfl, ?_⟩
    rw [if_pos hlen]
    rfl
  simp only [verifyProof, bind_eq_ok, pure_eq_ok]
  exact ⟨[], hexpanded, [], rfl, rfl⟩

/-- What is verified of a list that is not empty. -/
theorem tryVerifyAndExpand_ok {T : ProofLibrary L R} {requestId : Int} {aux : ZkData}
    {rawCt : Bytes} {theList : L} {cts : List (SupportedFheCiphertexts R)}
    (hlist : T.safeDeserializeConformant rawCt = .ok theList) (hlen : T.len theList ≠ 0)
    (h : tryVerifyAndExpandCiphertextList T requestId rawCt aux = .ok cts) :
    ∃ auxDataBytes entries, aux.assemble = .ok auxDataBytes ∧
      T.verifyAndExpand theList auxDataBytes = .ok entries ∧ extractCtList entries = .ok cts := by
  simp only [tryVerifyAndExpandCiphertextList, bind_eq_ok, hlist, Except.mapError,
    Except.ok.injEq, exists_eq_left', if_neg hlen] at h
  obtain ⟨auxDataBytes, haux, _, -, entries, hentries, hcts⟩ := h
  refine ⟨auxDataBytes, entries, haux, ?_, hcts⟩
  cases hverify : T.verifyAndExpand theList auxDataBytes with
  | error text => simp [hverify] at hentries
  | ok entries' => simpa [hverify] using hentries

/-- The ciphertexts of a list are those of its entries, in their order. -/
theorem verifyProof_ok {T : ProofLibrary L R} {requestId : Int} {aux : ZkData} {rawCt : Bytes}
    {cts : List Ciphertext} {blobHash : Bytes}
    (h : verifyProof keccak256 T requestId aux rawCt = .ok (cts, blobHash)) :
    ∃ expanded, tryVerifyAndExpandCiphertextList T requestId rawCt aux = .ok expanded ∧
      blobHash = wordBytes (keccak256 (RAW_CT_HASH_DOMAIN_SEPARATOR ++ rawCt)) ∧
        List.Forall₂ (fun ct out => createCiphertext keccak256 T blobHash ct.2 ct.1 aux = .ok out)
          expanded.zipIdx cts := by
  simp only [verifyProof, bind_eq_ok, pure_eq_ok, mapM_eq_ok, Prod.mk.injEq] at h
  obtain ⟨expanded, hexpanded, _, hcts, rfl, rfl⟩ := h
  exact ⟨expanded, hexpanded, rfl, hcts⟩

end Verify

end Fhevm.ZkProof
