import Fhevm.Gateway.Decryption
import Fhevm.Sdk.Eip712

/-!
# Requests of the SDK for a user decryption

A second builder of the SDK collects the arguments of the call of the gateway contract.

## Main definitions

* `UserDecryptRequestBuilder` — the builder, with its checks.
* `userDecryptionReq` — the call that is sent.
-/

namespace Fhevm.Sdk

open Foundation Gateway Host

structure UserDecryptRequest where
  ctHandleContractPairs : List CtHandleContractPair
  requestValidity : RequestValidity
  contractAddresses : List Address
  userAddress : Address
  signature : Bytes
  publicKey : Bytes
deriving DecidableEq, Repr

structure UserDecryptRequestBuilder where
  ctHandleContractPairs : List CtHandleContractPair
  contractAddresses : List Address
  userAddress : Option Address
  signature : Option Bytes
  publicKey : Option Bytes
  startTimestamp : Option UInt64
  durationDays : Option UInt64
  contractsChainId : Option UInt64
deriving DecidableEq, Repr

def MAX_CONTRACT_ADDRESSES : Nat := 10

def HANDLE_SIZE : Nat := 32

def MAX_DURATION_DAYS : UInt64 := 365

def validateHandlesInput (handles : List Bytes) (contractAddresses : List Address) :
    SdkResult Unit := do
  require (handles ≠ []) (.invalidParams "At least one ciphertext handle is required")
  require (contractAddresses ≠ []) (.invalidParams "At least one contract address is required")
  require (¬ contractAddresses.length > MAX_CONTRACT_ADDRESSES)
    (.invalidParams "Maximum 10 contract addresses allowed")

def validateHandleSize (handle : Bytes) (index : Nat) : SdkResult Unit :=
  require (handle.length = HANDLE_SIZE) (.invalidParams ("Handle " ++ toString index ++
    " must be exactly " ++ toString HANDLE_SIZE ++ " bytes, got " ++ toString handle.length))

def validateValidityParams (durationDays : UInt64) : SdkResult Unit := do
  require (durationDays ≠ 0) (.invalidParams "Duration days cannot be zero")
  require (¬ durationDays > MAX_DURATION_DAYS) (.invalidParams "Duration days cannot exceed 365")

/-- The loop over the handles: the contracts are taken in turn. -/
def pairHandles (contractAddresses : List Address) :
    List Bytes → Nat → SdkResult (List CtHandleContractPair)
  | [], _ => .ok []
  | handle :: handles, i => do
    validateHandleSize handle i
    let contract := contractAddresses.getD (i % contractAddresses.length) 0
    let pairs ← pairHandles contractAddresses handles (i + 1)
    return ⟨BitVec.ofNat 256 (BigEndian.decode handle), contract⟩ :: pairs

theorem lawfulBEq_address : LawfulBEq Address := inferInstance

attribute [local instance] lawfulBEq_address

/-- One turn of the loop that keeps the contracts: one that is kept already is left out. -/
def addContract (kept : List Address) (address : Address) : List Address :=
  if address ∈ kept then kept else kept ++ [address]

/-- A field of the builder that must have been set. -/
def required {α : Type} (field : Option α) (missing : String) : SdkResult α :=
  match field with
  | some a => .ok a
  | none => .error (.invalidParams missing)

@[simp] theorem required_eq_ok {α : Type} {field : Option α} {missing : String} {a : α} :
    required field missing = .ok a ↔ field = some a := by
  cases field <;> simp [required]

namespace UserDecryptRequestBuilder

def new : UserDecryptRequestBuilder := ⟨[], [], none, none, none, none, none, none⟩

variable (b : UserDecryptRequestBuilder)

def withHandlesFromBytes (handles : List Bytes) (contractAddresses : List Address) :
    SdkResult UserDecryptRequestBuilder := do
  validateHandlesInput handles contractAddresses
  let pairs ← pairHandles contractAddresses handles 0
  return { b with
    ctHandleContractPairs := b.ctHandleContractPairs ++ pairs
    contractAddresses := contractAddresses.foldl addContract b.contractAddresses }

/-- `with_user_address_from_str` on the address that the text stands for. -/
def withUserAddress (address : Address) : SdkResult UserDecryptRequestBuilder := do
  validateAddress address
  return { b with userAddress := some address }

def withSignatureFromHex (signature : String) : SdkResult UserDecryptRequestBuilder := do
  let signatureBytes ← parseHexString signature "signature"
  require (signatureBytes.length = 65) (.invalidParams
    ("Invalid signature length: expected 65 bytes, got " ++ toString signatureBytes.length))
  return { b with signature := some signatureBytes }

def withPublicKeyFromHex (publicKey : String) : SdkResult UserDecryptRequestBuilder := do
  let publicKeyBytes ← parseHexString publicKey "public key"
  require (publicKeyBytes ≠ []) (.invalidParams "Public key cannot be empty")
  return { b with publicKey := some publicKeyBytes }

def withValidity (startTimestamp durationDays : UInt64) :
    SdkResult UserDecryptRequestBuilder := do
  validateValidityParams durationDays
  return { b with startTimestamp := some startTimestamp, durationDays := some durationDays }

def withContractsChainId (chainId : UInt64) : UserDecryptRequestBuilder :=
  { b with contractsChainId := some chainId }

/-- `validate` and `construct`: everything must have been given. The sizes that `validate`
checks once more are those of the types and of the setters. -/
def build : SdkResult UserDecryptRequest := do
  require (b.ctHandleContractPairs ≠ [])
    (.invalidParams "Missing handles: Call `with_handles_from_bytes()` first.")
  let userAddress ← required b.userAddress
    "Missing user address: Call `with_user_address_from_str()` first."
  let signature ← required b.signature
    "Missing signature: Call `with_signature_from_hex()` first."
  let publicKey ← required b.publicKey
    "Missing public key: Call `with_public_key_from_hex()` first."
  let startTimestamp ← required b.startTimestamp "Missing validity: Call `with_validity()` first."
  let durationDays ← required b.durationDays "Missing validity: Call `with_validity()` first."
  require (¬ (durationDays = 0 ∨ durationDays > 365))
    (.invalidParams "Duration must be between 1 and 365 days")
  require (signature.length = 65) (.invalidParams
    ("Invalid signature length: expected 65 bytes, got " ++ toString signature.length))
  return ⟨b.ctHandleContractPairs, ⟨startTimestamp.toNat, durationDays.toNat⟩,
    b.contractAddresses, userAddress, signature, publicKey⟩

end UserDecryptRequestBuilder

/-- The call of the gateway that `user_decryption_req` encodes. -/
def userDecryptionReq (request : UserDecryptRequest) (contractsChainId : UInt64) :
    UserDecryptionRequest where
  ctHandleContractPairs := request.ctHandleContractPairs
  requestValidity := request.requestValidity
  contractsInfo := ⟨contractsChainId.toNat, request.contractAddresses⟩
  userAddress := request.userAddress
  publicKey := request.publicKey
  signature := request.signature
  extraData := []

def UserDecryptRequestBuilder.buildAndGenerateCalldata (b : UserDecryptRequestBuilder) :
    SdkResult UserDecryptionRequest := do
  let contractsChainId ← required b.contractsChainId "contracts_chain_id was not configured"
  let request ← b.build
  return userDecryptionReq request contractsChainId

end Fhevm.Sdk
