import Fhevm.Gateway.Decryption
import Fhevm.Host.InputVerifier

/-!
# The verifier of public decryptions

A decrypted result is accepted on a host chain together with a proof: the signatures of KMS nodes
behind a byte with their number, and the extra data in the rest of the bytes. The signatures are
those that the gateway has collected, over the domain of the gateway.

## Main definitions

* `Storage` — the signers, the domain and the transient storage.
* `verifyDecryptionEIP712KMSSignatures` — the entry point.
* `defineNewContext`, `setThreshold` — the calls of the owner.
* `contract` — the contract.
-/

namespace Fhevm.Host.KMSVerifier

open Foundation Gateway

/-! ## Data -/

/-- The struct of the contract, and the fields of its domain. -/
structure Storage where
  isSigner : Address → Bool
  signers : List Address
  threshold : Nat
  transient : TransientSet.Store 256
  verifyingContractSource : Address
  chainIDSource : BitVec 64

inductive Error
  | kmsAlreadySigner
  | kmsInvalidSigner (invalidSigner : Address)
  | deserializingDecryptionProofFail
  | emptyDecryptionProof
  | kmsSignerNull
  | kmsSignatureThresholdNotReached (numSignatures : Nat)
  | kmsZeroSignature
  | signersSetIsEmpty
  | thresholdIsNull
  | thresholdIsAboveNumberOfSigners
  | notHostOwner
  | ecdsaInvalidSignature
deriving DecidableEq, Repr

inductive Output
  | newContextSet (newKmsSignersSet : List Address) (newThreshold : Nat)
  | isVerified (isVerified : Bool)
  | none
deriving DecidableEq, Repr

abbrev Result := Except Error

def EIP712_PUBLIC_DECRYPT_TYPE : String :=
  "PublicDecryptVerification(bytes32[] ctHandles,bytes decryptedResult,bytes extraData)"

/-- Before a first context is defined. -/
def Storage.init (verifyingContractSource : Address) (chainIDSource : BitVec 64) :
    Storage where
  isSigner _ := false
  signers := []
  threshold := 0
  transient := TransientSet.empty
  verifyingContractSource := verifyingContractSource
  chainIDSource := chainIDSource

/-! ## Contexts -/

/-- `_setThreshold` -/
def Storage.setThreshold (threshold : Nat) (s : Storage) :
    Result Storage := do
  require (threshold ≠ 0) .thresholdIsNull
  require (¬ threshold > s.signers.length) .thresholdIsAboveNumberOfSigners
  return { s with threshold := threshold }

/-- The loop that removes the signers. -/
def Storage.removeSigners (s : Storage) : Storage :=
  { s with
    isSigner := s.signers.foldl (fun isSigner signer => Function.update isSigner signer false)
      s.isSigner
    signers := [] }

/-- One turn of the loop that adds signers. -/
def Storage.addSigner (s : Storage) (signer : Address) :
    Result Storage := do
  require (signer ≠ 0) .kmsSignerNull
  require (s.isSigner signer = false) .kmsAlreadySigner
  return { s with
    isSigner := Function.update s.isSigner signer true
    signers := s.signers ++ [signer] }

def defineNewContext (isACLOwner : Bool) (newSignersSet : List Address) (newThreshold : Nat)
    (s : Storage) : Result Storage := do
  require (isACLOwner = true) .notHostOwner
  require (newSignersSet ≠ []) .signersSetIsEmpty
  let s ← newSignersSet.foldlM Storage.addSigner s.removeSigners
  s.setThreshold newThreshold

def setThreshold (isACLOwner : Bool) (threshold : Nat) (s : Storage) :
    Result Storage := do
  require (isACLOwner = true) .notHostOwner
  s.setThreshold threshold

/-! ## Signatures -/

section Signatures

variable (D : GatewayDeployment)

/-- The hash under the domain of the gateway, and the recovery of signers. -/
def Storage.scheme (s : Storage) : SignatureScheme where
  hashTypedDataV4 := toTypedDataHash D.keccak256
    (domainSeparator D.keccak256 "Decryption" "1" s.chainIDSource.toNat s.verifyingContractSource)
  recover := D.recover

/-- `_hashDecryptionResult` -/
def Storage.hashDecryptionResult (s : Storage)
    (decRes : PublicDecryptVerification) : Bytes32 :=
  (s.scheme D).hashTypedDataV4
    (D.keccak256 (wordBytes (D.keccak256 (textBytes EIP712_PUBLIC_DECRYPT_TYPE)) ++
      wordBytes (D.keccak256 (decRes.ctHandles.flatMap wordBytes)) ++
        wordBytes (D.keccak256 decRes.decryptedResult) ++ wordBytes (D.keccak256 decRes.extraData)))

/-- The loop over the signatures is that of the verifier of inputs. -/
def Storage.marks (s : Storage) : InputVerifierState :=
  ⟨s.isSigner, s.threshold, s.transient⟩

/-- The reverts of the loop, as this contract has them. -/
def Error.ofLoop : HostError → Error
  | .invalidSigner signer => .kmsInvalidSigner signer
  | _ => .ecdsaInvalidSignature

/-- `_verifySignaturesDigest` -/
def Storage.verifySignaturesDigest (digest : Bytes32) (signatures : List Bytes)
    (s : Storage) : Result (Bool × Storage) := do
  require (signatures ≠ []) .kmsZeroSignature
  require (¬ signatures.length < s.threshold) (.kmsSignatureThresholdNotReached signatures.length)
  let (isVerified, marks) ← (countSigners (s.scheme D) digest signatures [] s.marks).mapError
    Error.ofLoop
  return (isVerified, { s with transient := marks.transient })

/-! ## Proofs -/

/-- The signatures of a proof, of 65 bytes each. -/
def decryptionSignatures (decryptionProof : Bytes) (numSigners : Nat) : List Bytes :=
  (List.range numSigners).map fun j => (decryptionProof.drop (1 + 65 * j)).take 65

def verifyDecryptionEIP712KMSSignatures (handlesList : List Bytes32)
    (decryptedResult decryptionProof : Bytes) (s : Storage) :
    Result (Bool × Storage) :=
  match decryptionProof with
  | [] => .error .emptyDecryptionProof
  | count :: _ => do
    let numSigners := count.toNat
    let extraDataOffset := 1 + 65 * numSigners
    require (¬ decryptionProof.length < extraDataOffset) .deserializingDecryptionProofFail
    let signatures := decryptionSignatures decryptionProof numSigners
    let extraData := decryptionProof.drop extraDataOffset
    let digest := s.hashDecryptionResult D ⟨handlesList, decryptedResult, extraData⟩
    s.verifySignaturesDigest D digest signatures

/-! ## The contract -/

inductive Call
  | defineNewContext (isACLOwner : Bool) (newSignersSet : List Address) (newThreshold : Nat)
  | setThreshold (isACLOwner : Bool) (threshold : Nat)
  | verifyDecryptionEIP712KMSSignatures (handlesList : List Bytes32)
      (decryptedResult decryptionProof : Bytes)
  /-- Transient storage does not outlive a transaction. -/
  | newTransaction
deriving DecidableEq, Repr

def contract : Contract Call Storage Error Output where
  call i s :=
    match i with
    | .defineNewContext isACLOwner newSignersSet newThreshold => do
      let s ← defineNewContext isACLOwner newSignersSet newThreshold s
      return (.newContextSet newSignersSet newThreshold, s)
    | .setThreshold isACLOwner threshold => do
      let s ← setThreshold isACLOwner threshold s
      return (.newContextSet s.signers threshold, s)
    | .verifyDecryptionEIP712KMSSignatures handlesList decryptedResult decryptionProof => do
      let (isVerified, s) ← verifyDecryptionEIP712KMSSignatures D handlesList decryptedResult
        decryptionProof s
      return (.isVerified isVerified, s)
    | .newTransaction => .ok (.none, { s with transient := TransientSet.empty })

end Signatures

end Fhevm.Host.KMSVerifier
