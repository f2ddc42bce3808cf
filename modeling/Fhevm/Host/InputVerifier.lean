import Fhevm.Host.ACL

/-!
# The verifier of encrypted inputs

An input handle is accepted together with a proof: a list of handles with the
signatures of enough coprocessors over the list, the user, the contract and the
chain. A proof that was accepted is remembered for the transaction, so that the
further handles of its list are accepted without checking signatures again.

## Main definitions

* `InputVerifierState` — the signers and the transient storage.
* `SignatureScheme` — the hash and the recovery of signatures, which are libraries.
* `verifyProof` — the checks on a proof that was not accepted before.
* `verifyInput` — the entry point.
* `Storage` — the signers and their flags, the threshold and the transient storage.
* `defineNewContext`, `setThreshold` — the calls of the owner.
* `contract` — the contract.
-/

namespace Fhevm.Host

open Foundation

/-! ## Data -/

/-- The typed-data hash of the gateway's domain and the recovery of a signer, which fails on
a byte string that is no signature. -/
structure SignatureScheme where
  hashTypedDataV4 : Bytes32 → Bytes32
  recover : Bytes32 → Bytes → Option Address

structure ContextUserInputs where
  userAddress : Address
  contractAddress : Address
deriving DecidableEq, Repr

structure CiphertextVerification where
  ctHandles : List Bytes32
  userAddress : Address
  contractAddress : Address
  contractChainId : BitVec 256
  extraData : Bytes
deriving DecidableEq, Repr

/-- The transient storage holds the remembered proofs, and marks of signers while signatures
are counted. -/
structure InputVerifierState where
  isSigner : Address → Bool
  threshold : Nat
  transient : TransientSet.Store 256

def EIP712_INPUT_VERIFICATION_TYPE : String :=
  "CiphertextVerification(bytes32[] ctHandles,address userAddress,address contractAddress,uint256 contractChainId,bytes extraData)"

variable (D : Deployment) (V : SignatureScheme)

def EIP712_INPUT_VERIFICATION_TYPEHASH : Bytes32 :=
  D.keccak256 EIP712_INPUT_VERIFICATION_TYPE.toUTF8.toList

/-- An address as a word. -/
def addressWord (a : Address) : Bytes32 := a.setWidth 256

def hashEIP712InputVerification (ctVerification : CiphertextVerification) : Bytes32 :=
  V.hashTypedDataV4 (D.keccak256
    (wordBytes (EIP712_INPUT_VERIFICATION_TYPEHASH D) ++
      wordBytes (D.keccak256 (ctVerification.ctHandles.flatMap wordBytes)) ++
        wordBytes (addressWord ctVerification.userAddress) ++
          wordBytes (addressWord ctVerification.contractAddress) ++
            wordBytes ctVerification.contractChainId ++
              wordBytes (D.keccak256 ctVerification.extraData)))

/-! ## Signatures -/

/-- Whether the slot of an address is set. -/
def tload (location : Address) (s : InputVerifierState) : Bool :=
  s.transient (addressWord location) != 0

def tstore (location : Address) (value : Bytes32) (s : InputVerifierState) : InputVerifierState :=
  { s with transient := Function.update s.transient (addressWord location) value }

def cleanTransientHashMap (keys : List Address) (s : InputVerifierState) : InputVerifierState :=
  keys.foldl (fun s key => tstore key 0 s) s

def recoverSigner (message : Bytes32) (signature : Bytes) : Result Address :=
  match V.recover message signature with
  | some signer => .ok signer
  | none => .error .ecdsaInvalidSignature

/-- The loop over the signatures, with the distinct signers found so far. -/
def countSigners (digest : Bytes32) :
    List Bytes → List Address → InputVerifierState → Result (Bool × InputVerifierState)
  | [], recoveredSigners, s => .ok (false, cleanTransientHashMap recoveredSigners s)
  | signature :: signatures, recoveredSigners, s => do
    let signerRecovered ← recoverSigner V digest signature
    require (s.isSigner signerRecovered = true) (.invalidSigner signerRecovered)
    let (recoveredSigners, s) :=
      if tload signerRecovered s then (recoveredSigners, s)
      else (recoveredSigners ++ [signerRecovered], tstore signerRecovered 1 s)
    if s.threshold ≤ recoveredSigners.length then
      return (true, cleanTransientHashMap recoveredSigners s)
    else
      countSigners digest signatures recoveredSigners s

def verifySignaturesDigest (digest : Bytes32) (signatures : List Bytes) (s : InputVerifierState) :
    Result (Bool × InputVerifierState) := do
  require (signatures ≠ []) .zeroSignature
  require (¬ signatures.length < s.threshold) (.signatureThresholdNotReached signatures.length)
  countSigners V digest signatures [] s

def verifyEIP712 (ctVerif : CiphertextVerification) (signatures : List Bytes)
    (s : InputVerifierState) : Result InputVerifierState := do
  let digest := hashEIP712InputVerification D V ctVerif
  let (isVerified, s) ← verifySignaturesDigest V digest signatures s
  require (isVerified = true) .signaturesVerificationFailed
  return s

/-! ## Proofs -/

def cacheKey (context : ContextUserInputs) (inputProof : Bytes) : Bytes32 :=
  D.keccak256 (addressBytes context.contractAddress ++ addressBytes context.userAddress ++ inputProof)

def checkProofCache (context : ContextUserInputs) (inputProof : Bytes) (s : InputVerifierState) :
    Bool × Bytes32 :=
  let key := cacheKey D context inputProof
  (TransientSet.contains key s.transient, key)

def cacheProof (proofKey : Bytes32) (s : InputVerifierState) : InputVerifierState :=
  { s with transient := TransientSet.record proofKey s.transient }

/-- `inputProof[i]`, a panic outside the byte string. -/
def readByte (inputProof : Bytes) (i : Nat) : Result Nat :=
  match inputProof[i]? with
  | some b => .ok b.toNat
  | none => .error .panic

/-- The word at an offset of the proof. -/
def readWord (inputProof : Bytes) (offset : Nat) : Bytes32 :=
  BitVec.ofNat 256 (BigEndian.decode ((inputProof.drop offset).take 32))

/-- The parts of a proof whose first two bytes give the numbers of handles and signers. -/
def proofHandles (inputProof : Bytes) (numHandles : Nat) : List Bytes32 :=
  (List.range numHandles).map fun i => readWord inputProof (2 + 32 * i)

def proofSignatures (inputProof : Bytes) (numHandles numSigners : Nat) : List Bytes :=
  (List.range numSigners).map fun j => (inputProof.drop (2 + 32 * numHandles + 65 * j)).take 65

def handleVersion (handle : Bytes32) : BitVec 8 := handle.setWidth 8

/-- The checks on a proof that is not remembered; it returns the handles of its list. -/
def verifyProof (context : ContextUserInputs) (indexHandle : Nat) (inputProof : Bytes)
    (s : InputVerifierState) : Result (List Bytes32 × InputVerifierState) := do
  require (inputProof.length ≠ 0) .emptyInputProof
  let numHandles ← readByte inputProof 0
  let numSigners ← readByte inputProof 1
  require (¬ (numHandles ≤ indexHandle ∨ 254 < indexHandle)) .invalidIndex
  let extraDataOffset := 2 + 32 * numHandles + 65 * numSigners
  require (¬ inputProof.length < extraDataOffset) .deserializingInputProofFail
  let listHandles := proofHandles inputProof numHandles
  require (∀ element ∈ listHandles, handleVersion element = HANDLE_VERSION) .invalidHandleVersion
  let signatures := proofSignatures inputProof numHandles numSigners
  let ctVerif : CiphertextVerification :=
    { ctHandles := listHandles
      userAddress := context.userAddress
      contractAddress := context.contractAddress
      contractChainId := D.chainid
      extraData := inputProof.drop extraDataOffset }
  let s ← verifyEIP712 D V ctVerif signatures s
  return (listHandles, s)

/-- The loop that reads the word at an offset of a remembered proof, byte by byte. -/
def readElement (inputProof : Bytes) (offset : Nat) : Nat → Result Bytes32
  | 0 => .ok 0
  | j + 1 => do
    let element ← readElement inputProof offset j
    let byte ← readByte inputProof (offset + j)
    return element ||| (BitVec.ofNat 256 byte <<< (8 * (31 - j)))

/-- The handle that a remembered proof has at the index. -/
def readCachedProof (indexHandle : Nat) (inputProof : Bytes) : Result Bytes32 := do
  let numHandles ← readByte inputProof 0
  require (¬ (numHandles ≤ indexHandle ∨ 254 < indexHandle)) .invalidIndex
  readElement inputProof (2 + indexHandle * 32) 32

def verifyInput (context : ContextUserInputs) (inputHandle : Bytes32) (inputProof : Bytes)
    (s : InputVerifierState) : Result (Bytes32 × InputVerifierState) := do
  let (isProofCached, cacheKey) := checkProofCache D context inputProof s
  require ((recoveredChainId inputHandle).setWidth 256 = D.chainid) .invalidChainId
  let indexHandle := (indexHandle inputHandle).toNat
  if ¬ isProofCached then
    let (listHandles, s) ← verifyProof D V context indexHandle inputProof s
    let s := cacheProof cacheKey s
    require (listHandles[indexHandle]? = some inputHandle) .invalidInputHandle
    return (inputHandle, s)
  else
    let element ← readCachedProof indexHandle inputProof
    require (element = inputHandle) .invalidInputHandle
    return (inputHandle, s)

def cleanProofCache (s : InputVerifierState) : InputVerifierState :=
  { s with transient := TransientSet.clear s.transient }

/-! ## What is accepted -/

section Accepted

variable {D V} {context : ContextUserInputs} {inputHandle result : Bytes32} {inputProof : Bytes}
  {s s' : InputVerifierState}

theorem readByte_eq_ok {i n : Nat} :
    readByte inputProof i = .ok n ↔ ∃ b, inputProof[i]? = some b ∧ b.toNat = n := by
  unfold readByte
  cases inputProof[i]? <;> simp

/-- An accepted handle is returned as it is. It is of this chain, and its index is not the one
of computed handles. -/
theorem verifyInput_result (h : verifyInput D V context inputHandle inputProof s = .ok (result, s')) :
    result = inputHandle ∧ (recoveredChainId inputHandle).setWidth 256 = D.chainid ∧
      (indexHandle inputHandle).toNat ≤ 254 := by
  simp only [verifyInput, bind_eq_ok, require_eq_ok, exists_const] at h
  obtain ⟨hchain, h⟩ := h
  split_ifs at h
  · simp only [readCachedProof, bind_eq_ok, require_eq_ok, exists_const] at h
    obtain ⟨_, ⟨_, -, hindex, -⟩, -, h⟩ := h
    cases h
    exact ⟨rfl, hchain, by omega⟩
  · simp only [verifyProof, bind_eq_ok, require_eq_ok, exists_const] at h
    obtain ⟨_, ⟨-, _, -, _, -, hindex, -⟩, -, h⟩ := h
    cases h
    exact ⟨rfl, hchain, by omega⟩

end Accepted

end Fhevm.Host

/-! ## The contexts of the verifier of encrypted inputs

The owner of the host contracts defines a context: the signers of the coprocessors, and how many of
them have to sign. The verification of inputs reads the flags of the signers, and the list of signers
is kept to reset them. -/

namespace Fhevm.Host.InputVerifier

open Foundation

/-! ## Data -/

structure Storage extends InputVerifierState where
  signers : List Address

inductive Error
  | coprocessorAlreadySigner
  | coprocessorSignerNull
  | signersSetIsEmpty
  | thresholdIsNull
  | thresholdIsAboveNumberOfSigners
  | notHostOwner
  | verification (error : HostError)
deriving DecidableEq, Repr

inductive Output
  | newContextSet (newSignersSet : List Address) (newThreshold : Nat)
  | verified (inputHandle : Bytes32)
  | none
deriving DecidableEq, Repr

abbrev Result := Except Error

/-- Before a first context is defined. -/
def Storage.init : Storage where
  isSigner _ := false
  threshold := 0
  transient := TransientSet.empty
  signers := []

/-! ## Contexts -/

/-- `_setThreshold` -/
def Storage.setThreshold (threshold : Nat) (s : Storage) : Result Storage := do
  require (threshold ≠ 0) .thresholdIsNull
  require (¬ threshold > s.signers.length) .thresholdIsAboveNumberOfSigners
  return { s with threshold := threshold }

/-- The loop that removes the signers. -/
def Storage.removeSigners (s : Storage) : Storage :=
  { s with
    isSigner := s.signers.foldl (fun isSigner signer => Function.update isSigner signer false)
      s.isSigner
    signers := [] }

/-- One turn of the loop that adds signers. -/
def Storage.addSigner (s : Storage) (signer : Address) : Result Storage := do
  require (signer ≠ 0) .coprocessorSignerNull
  require (s.isSigner signer = false) .coprocessorAlreadySigner
  return { s with
    isSigner := Function.update s.isSigner signer true
    signers := s.signers ++ [signer] }

def defineNewContext (isACLOwner : Bool) (newSignersSet : List Address) (newThreshold : Nat)
    (s : Storage) : Result Storage := do
  require (isACLOwner = true) .notHostOwner
  require (newSignersSet ≠ []) .signersSetIsEmpty
  let s ← newSignersSet.foldlM Storage.addSigner s.removeSigners
  s.setThreshold newThreshold

def setThreshold (isACLOwner : Bool) (threshold : Nat) (s : Storage) : Result Storage := do
  require (isACLOwner = true) .notHostOwner
  s.setThreshold threshold

/-- The first context, which comes with the deployment. -/
def initializeFromEmptyProxy (isACLOwner : Bool) (initialSigners : List Address)
    (initialThreshold : Nat) : Result Storage :=
  defineNewContext isACLOwner initialSigners initialThreshold .init

/-! ## The contract -/

inductive Call
  | defineNewContext (isACLOwner : Bool) (newSignersSet : List Address) (newThreshold : Nat)
  | setThreshold (isACLOwner : Bool) (threshold : Nat)
  | verifyInput (context : ContextUserInputs) (inputHandle : Bytes32) (inputProof : Bytes)
  | cleanTransientStorage
  /-- Transient storage does not outlive a transaction. -/
  | newTransaction
deriving DecidableEq, Repr

def contract (D : Deployment) (V : SignatureScheme) : Contract Call Storage Error Output where
  call i s :=
    match i with
    | .defineNewContext isACLOwner newSignersSet newThreshold => do
      let s ← defineNewContext isACLOwner newSignersSet newThreshold s
      return (.newContextSet newSignersSet newThreshold, s)
    | .setThreshold isACLOwner threshold => do
      let s ← setThreshold isACLOwner threshold s
      return (.newContextSet s.signers threshold, s)
    | .verifyInput context inputHandle inputProof => do
      let (inputHandle, verifier) ← (Host.verifyInput D V context inputHandle inputProof
        s.toInputVerifierState).mapError .verification
      return (.verified inputHandle, { s with toInputVerifierState := verifier })
    | .cleanTransientStorage =>
      .ok (.none, { s with toInputVerifierState := cleanProofCache s.toInputVerifierState })
    | .newTransaction => .ok (.none, { s with transient := TransientSet.empty })

end Fhevm.Host.InputVerifier
