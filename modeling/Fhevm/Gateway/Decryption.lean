import Fhevm.Gateway.Allow
import Fhevm.Gateway.KMSGeneration
import Fhevm.Gateway.Shared

/-!
# Decryption

Anybody asks for the public decryption of handles, and users for the decryption of
handles under their public key. The KMS nodes answer by signed results or shares.

## Main definitions

* `DecryptionStorage` — the storage of the contract.
* `publicDecryptionRequest`, `userDecryptionRequest` — the requests, with their checks on handles.
* `publicDecryptionResponse`, `userDecryptionResponse` — the responses.
* `decryption` — the contract.
-/

namespace Fhevm.Gateway

open Foundation Contract Host

/-! ## Data -/

/-- The struct that a KMS node signs for a public decryption. -/
structure PublicDecryptVerification where
  ctHandles : List Bytes32
  decryptedResult : Bytes
  extraData : Bytes
deriving DecidableEq, Repr

/-- The struct that a user signs. -/
structure UserDecryptRequestVerification where
  publicKey : Bytes
  contractAddresses : List Address
  startTimestamp : Nat
  durationDays : Nat
  extraData : Bytes
deriving DecidableEq, Repr

/-- The struct that a KMS node signs for a user decryption. -/
structure UserDecryptResponseVerification where
  publicKey : Bytes
  ctHandles : List Bytes32
  userDecryptedShare : Bytes
  extraData : Bytes
deriving DecidableEq, Repr

structure UserDecryptionPayload where
  publicKey : Bytes
  ctHandles : List Bytes32
deriving DecidableEq, Repr

structure CtHandleContractPair where
  ctHandle : Bytes32
  contractAddress : Address
deriving DecidableEq, Repr

structure RequestValidity where
  startTimestamp : Nat
  durationDays : Nat
deriving DecidableEq, Repr

structure ContractsInfo where
  chainId : Nat
  addresses : List Address
deriving DecidableEq, Repr

structure DecryptionStorage where
  paused : Bool
  decryptionDone : Nat → Bool
  kmsNodeAlreadySigned : Nat → Address → Bool
  consensusTxSenderAddresses : Nat → Bytes32 → List Address
  decryptionConsensusDigest : Nat → Bytes32
  verifiedPublicDecryptSignatures : Nat → Bytes32 → List Bytes
  publicCtHandles : Nat → List Bytes32
  publicDecryptionCounter : Nat
  userDecryptionPayloads : Nat → UserDecryptionPayload
  userDecryptionCounter : Nat

def PUBLIC_DECRYPT_COUNTER_BASE : Nat := counterBase .publicDecrypt
def USER_DECRYPT_COUNTER_BASE : Nat := counterBase .userDecrypt

/-- The storage after `initializeFromEmptyProxy`. -/
def DecryptionStorage.init : DecryptionStorage where
  paused := false
  decryptionDone _ := false
  kmsNodeAlreadySigned _ _ := false
  consensusTxSenderAddresses _ _ := []
  decryptionConsensusDigest _ := 0
  verifiedPublicDecryptSignatures _ _ := []
  publicCtHandles _ := []
  publicDecryptionCounter := PUBLIC_DECRYPT_COUNTER_BASE
  userDecryptionPayloads _ := ⟨[], []⟩
  userDecryptionCounter := USER_DECRYPT_COUNTER_BASE

inductive DecryptionEvent
  | publicDecryptionRequest (decryptionId : Nat) (snsCtMaterials : List CiphertextMaterial)
      (extraData : Bytes)
  | publicDecryptionResponseCall (decryptionId : Nat) (decryptedResult signature : Bytes)
      (kmsTxSender : Address) (extraData : Bytes)
  | publicDecryptionResponse (decryptionId : Nat) (decryptedResult : Bytes)
      (signatures : List Bytes) (extraData : Bytes)
  | userDecryptionRequest (decryptionId : Nat) (snsCtMaterials : List CiphertextMaterial)
      (userAddress : Address) (publicKey extraData : Bytes)
  | userDecryptionResponse (decryptionId indexShare : Nat)
      (userDecryptedShare signature extraData : Bytes)
  | userDecryptionResponseThresholdReached (decryptionId : Nat)
  | paused (account : Address)
  | unpaused (account : Address)
deriving DecidableEq, Repr

inductive DecryptionError
  | shared (e : SharedError)
  | commits (e : CiphertextCommitsError)
  | invalidFHEType (fheTypeUint8 : BitVec 8)
  | unsupportedFHEType (fheType : FheType)
  | publicDecryptNotAllowed (ctHandle : Bytes32)
  | accountNotAllowedToUseCiphertext (ctHandle : Bytes32) (accountAddress : Address)
  | emptyCtHandles
  | emptyCtHandleContractPairs
  | maxDecryptionRequestBitSizeExceeded (maxBitSize totalBitSize : Nat)
  | kmsNodeAlreadySigned (decryptionId : Nat) (signer : Address)
  | invalidUserSignature (signature : Bytes)
  | emptyContractAddresses
  | contractAddressesMaxLengthExceeded (maxLength actualLength : Nat)
  | invalidNullDurationDays
  | maxDurationDaysExceeded (maxValue actualValue : Nat)
  | startTimestampInFuture (currentTimestamp startTimestamp : Nat)
  | userDecryptionRequestExpired (currentTimestamp : Nat) (requestValidity : RequestValidity)
  | userAddressInContractAddresses (userAddress : Address) (contractAddresses : List Address)
  | contractNotInContractAddresses (contractAddress : Address) (contractAddresses : List Address)
  | differentKeyIdsNotAllowed (firstSnsCtMaterial invalidSnsCtMaterial : CiphertextMaterial)
  | decryptionNotRequested (decryptionId : Nat)
deriving DecidableEq, Repr

abbrev DecryptionResult := Except DecryptionError

abbrev DecryptionOutcome := DecryptionResult (List DecryptionEvent × DecryptionStorage)

/-- What the other contracts and the chain answer at a request. -/
structure RequestEnv where
  acl : MultichainACLAllows
  commits : CiphertextCommitsStorage
  timestamp : Nat
  feeCollected : Bool

/-! ## Digests -/

section Digests

variable (D : GatewayDeployment)

def EIP712_PUBLIC_DECRYPT_TYPE : String :=
  "PublicDecryptVerification(bytes32[] ctHandles,bytes decryptedResult,bytes extraData)"

def EIP712_USER_DECRYPT_REQUEST_TYPE : String :=
  "UserDecryptRequestVerification(bytes publicKey,address[] contractAddresses,uint256 startTimestamp,uint256 durationDays,bytes extraData)"

def EIP712_USER_DECRYPT_RESPONSE_TYPE : String :=
  "UserDecryptResponseVerification(bytes publicKey,bytes32[] ctHandles,bytes userDecryptedShare,bytes extraData)"

/-- `_hashTypedDataV4CustomChainId` -/
def hashTypedDataV4CustomChainId (chainId : Nat) (structHash : Bytes32) : Bytes32 :=
  toTypedDataHash D.keccak256
    (domainSeparator D.keccak256 "Decryption" "1" chainId D.decryptionAddress) structHash

/-- `_hashPublicDecryptVerification` -/
def hashPublicDecryptVerification (v : PublicDecryptVerification) : Bytes32 :=
  hashTypedDataV4CustomChainId D D.chainid
    (D.keccak256 (wordBytes (D.keccak256 (textBytes EIP712_PUBLIC_DECRYPT_TYPE)) ++
      wordBytes (D.keccak256 (v.ctHandles.flatMap wordBytes)) ++
        wordBytes (D.keccak256 v.decryptedResult) ++ wordBytes (D.keccak256 v.extraData)))

def UserDecryptRequestVerification.encoding (v : UserDecryptRequestVerification) : Bytes :=
  wordBytes (D.keccak256 (textBytes EIP712_USER_DECRYPT_REQUEST_TYPE)) ++
    (wordBytes (D.keccak256 v.publicKey) ++
      (wordBytes (D.keccak256 (v.contractAddresses.flatMap paddedAddress)) ++
        (uintBytes v.startTimestamp ++ (uintBytes v.durationDays ++
          wordBytes (D.keccak256 v.extraData)))))

/-- `_hashUserDecryptRequestVerification` -/
def hashUserDecryptRequestVerification (v : UserDecryptRequestVerification)
    (contractsChainId : Nat) : Bytes32 :=
  hashTypedDataV4CustomChainId D contractsChainId (D.keccak256 (v.encoding D))

/-- `_hashUserDecryptResponseVerification` -/
def hashUserDecryptResponseVerification (v : UserDecryptResponseVerification) : Bytes32 :=
  hashTypedDataV4CustomChainId D D.chainid
    (D.keccak256 (wordBytes (D.keccak256 (textBytes EIP712_USER_DECRYPT_RESPONSE_TYPE)) ++
      wordBytes (D.keccak256 v.publicKey) ++
        wordBytes (D.keccak256 (v.ctHandles.flatMap wordBytes)) ++
          wordBytes (D.keccak256 v.userDecryptedShare) ++ wordBytes (D.keccak256 v.extraData)))

end Digests

/-! ## Checks on requests -/

def MAX_USER_DECRYPT_DURATION_DAYS : Nat := 365

def MAX_USER_DECRYPT_CONTRACT_ADDRESSES : Nat := 10

def MAX_DECRYPTION_REQUEST_BITS : Nat := 2048

/-- `FHETypeBitSizes.getBitSize` -/
def getBitSize : FheType → DecryptionResult Nat
  | .bool => .ok 2
  | .uint8 => .ok 8
  | .uint16 => .ok 16
  | .uint32 => .ok 32
  | .uint64 => .ok 64
  | .uint128 => .ok 128
  | .uint160 => .ok 160
  | .uint256 => .ok 256
  | fheType => .error (.unsupportedFHEType fheType)

/-- `HandleOps.extractFheType` with its revert. -/
def fheTypeOf (ctHandle : Bytes32) : DecryptionResult FheType :=
  match extractFheType ctHandle with
  | some fheType => .ok fheType
  | none => .error (.invalidFHEType (((ctHandle <<< 240) >>> 248).setWidth 8))

def checkTotalBitSize (totalBitSize : Nat) : DecryptionResult Unit :=
  require (¬ totalBitSize > MAX_DECRYPTION_REQUEST_BITS)
    (.maxDecryptionRequestBitSizeExceeded MAX_DECRYPTION_REQUEST_BITS totalBitSize)

/-- The loop of `_checkCtHandlesConformancePublic`, with the bits counted so far. -/
def conformancePublic (acl : MultichainACLAllows) : List Bytes32 → Nat → DecryptionResult Unit
  | [], totalBitSize => checkTotalBitSize totalBitSize
  | ctHandle :: ctHandles, totalBitSize => do
    let fheType ← fheTypeOf ctHandle
    let bitSize ← getBitSize fheType
    require (isPublicDecryptAllowed acl ctHandle = true) (.publicDecryptNotAllowed ctHandle)
    conformancePublic acl ctHandles (totalBitSize + bitSize)

section UserRequests

variable (D : GatewayDeployment)

/-- `_checkIsAccountAllowed` -/
def checkIsAccountAllowed (acl : MultichainACLAllows) (ctHandle : Bytes32)
    (accountAddress : Address) : DecryptionResult Unit :=
  require (isAccountAllowed D acl ctHandle accountAddress = true)
    (.accountNotAllowedToUseCiphertext ctHandle accountAddress)

/-- The loop of `_extractCtHandlesCheckConformanceUser`, with the bits counted so far. -/
def conformanceUser (acl : MultichainACLAllows) (contractAddresses : List Address)
    (allowedAddress : Address) : List CtHandleContractPair → Nat → DecryptionResult (List Bytes32)
  | [], totalBitSize => do
    checkTotalBitSize totalBitSize
    return []
  | pair :: pairs, totalBitSize => do
    let fheType ← fheTypeOf pair.ctHandle
    let bitSize ← getBitSize fheType
    checkIsAccountAllowed D acl pair.ctHandle allowedAddress
    checkIsAccountAllowed D acl pair.ctHandle pair.contractAddress
    require (pair.contractAddress ∈ contractAddresses)
      (.contractNotInContractAddresses pair.contractAddress contractAddresses)
    let ctHandles ← conformanceUser acl contractAddresses allowedAddress pairs
      (totalBitSize + bitSize)
    return pair.ctHandle :: ctHandles

/-- `_extractCtHandlesCheckConformanceUser` -/
def extractCtHandlesCheckConformanceUser (acl : MultichainACLAllows)
    (ctHandleContractPairs : List CtHandleContractPair) (contractAddresses : List Address)
    (allowedAddress : Address) : DecryptionResult (List Bytes32) := do
  require (ctHandleContractPairs ≠ []) .emptyCtHandleContractPairs
  conformanceUser D acl contractAddresses allowedAddress ctHandleContractPairs 0

/-- `_checkUserDecryptionRequestValidity`, where a day has 86400 seconds. -/
def checkUserDecryptionRequestValidity (timestamp : Nat) (requestValidity : RequestValidity) :
    DecryptionResult Unit := do
  require (requestValidity.durationDays ≠ 0) .invalidNullDurationDays
  require (¬ requestValidity.durationDays > MAX_USER_DECRYPT_DURATION_DAYS)
    (.maxDurationDaysExceeded MAX_USER_DECRYPT_DURATION_DAYS requestValidity.durationDays)
  require (¬ requestValidity.startTimestamp > timestamp)
    (.startTimestampInFuture timestamp requestValidity.startTimestamp)
  require (¬ requestValidity.startTimestamp + requestValidity.durationDays * 86400 < timestamp)
    (.userDecryptionRequestExpired timestamp requestValidity)

/-- `_validateUserDecryptRequestEIP712Signature` -/
def validateUserDecryptRequestEIP712Signature (v : UserDecryptRequestVerification)
    (userAddress : Address) (signature : Bytes) (contractsChainId : Nat) :
    DecryptionResult Unit := do
  let signer ← (recoverSigner D (hashUserDecryptRequestVerification D v contractsChainId)
    signature).mapError .shared
  require (signer = userAddress) (.invalidUserSignature signature)

end UserRequests

/-- `_checkCtMaterialKeyIds` -/
def checkCtMaterialKeyIds : List CiphertextMaterial → DecryptionResult Unit
  | [] => .ok ()
  | first :: others => others.forM fun material =>
    require (material.keyId = first.keyId) (.differentKeyIdsNotAllowed first material)

/-! ## Entry points -/

section EntryPoints

variable (D : GatewayDeployment)

def publicDecryptionRequest (ctHandles : List Bytes32) (extraData : Bytes) (env : RequestEnv)
    (s : DecryptionStorage) : DecryptionOutcome := do
  (whenNotPaused s.paused).mapError .shared
  require (ctHandles ≠ []) .emptyCtHandles
  conformancePublic env.acl ctHandles 0
  let snsCtMaterials ← (getSnsCiphertextMaterials env.commits ctHandles).mapError .commits
  checkCtMaterialKeyIds snsCtMaterials
  let publicDecryptionId ← increment 256 s.publicDecryptionCounter (.shared .overflow)
  (collectFee env.feeCollected).mapError .shared
  return ([.publicDecryptionRequest publicDecryptionId snsCtMaterials extraData],
    { s with
      publicDecryptionCounter := publicDecryptionId
      publicCtHandles := Function.update s.publicCtHandles publicDecryptionId ctHandles })

/-- The arguments of a user's request. -/
structure UserDecryptionRequest where
  ctHandleContractPairs : List CtHandleContractPair
  requestValidity : RequestValidity
  contractsInfo : ContractsInfo
  userAddress : Address
  publicKey : Bytes
  signature : Bytes
  extraData : Bytes
deriving DecidableEq, Repr

/-- What the user is held to have signed. -/
def UserDecryptionRequest.verification (r : UserDecryptionRequest) :
    UserDecryptRequestVerification where
  publicKey := r.publicKey
  contractAddresses := r.contractsInfo.addresses
  startTimestamp := r.requestValidity.startTimestamp
  durationDays := r.requestValidity.durationDays
  extraData := r.extraData

def userDecryptionRequest (r : UserDecryptionRequest) (env : RequestEnv)
    (s : DecryptionStorage) : DecryptionOutcome := do
  (whenNotPaused s.paused).mapError .shared
  require (r.contractsInfo.addresses ≠ []) .emptyContractAddresses
  require (¬ r.contractsInfo.addresses.length > MAX_USER_DECRYPT_CONTRACT_ADDRESSES)
    (.contractAddressesMaxLengthExceeded MAX_USER_DECRYPT_CONTRACT_ADDRESSES
      r.contractsInfo.addresses.length)
  checkUserDecryptionRequestValidity env.timestamp r.requestValidity
  require (r.userAddress ∉ r.contractsInfo.addresses)
    (.userAddressInContractAddresses r.userAddress r.contractsInfo.addresses)
  let ctHandles ← extractCtHandlesCheckConformanceUser D env.acl r.ctHandleContractPairs
    r.contractsInfo.addresses r.userAddress
  validateUserDecryptRequestEIP712Signature D r.verification r.userAddress r.signature
    r.contractsInfo.chainId
  let snsCtMaterials ← (getSnsCiphertextMaterials env.commits ctHandles).mapError .commits
  checkCtMaterialKeyIds snsCtMaterials
  let userDecryptionId ← increment 256 s.userDecryptionCounter (.shared .overflow)
  (collectFee env.feeCollected).mapError .shared
  return ([.userDecryptionRequest userDecryptionId snsCtMaterials r.userAddress r.publicKey
      r.extraData],
    { s with
      userDecryptionCounter := userDecryptionId
      userDecryptionPayloads :=
        Function.update s.userDecryptionPayloads userDecryptionId ⟨r.publicKey, ctHandles⟩ })

/-- `_validateDecryptionResponseEIP712Signature`: the signer is marked as having signed. -/
def validateDecryptionResponseEIP712Signature (tx : GatewayTx) (decryptionId : Nat)
    (digest : Bytes32) (signature : Bytes) (s : DecryptionStorage) :
    DecryptionResult DecryptionStorage := do
  let signer ← (recoverSigner D digest signature).mapError .shared
  (GatewayConfigChecks.checkKmsSignerMatchesTxSender tx.config signer tx.sender).mapError
    fun e => .shared (.check e)
  require (s.kmsNodeAlreadySigned decryptionId signer = false)
    (.kmsNodeAlreadySigned decryptionId signer)
  return { s with
    kmsNodeAlreadySigned := update₂ s.kmsNodeAlreadySigned decryptionId signer true }

def DecryptionStorage.publicDigest (s : DecryptionStorage) (decryptionId : Nat)
    (decryptedResult extraData : Bytes) : Bytes32 :=
  hashPublicDecryptVerification D ⟨s.publicCtHandles decryptionId, decryptedResult, extraData⟩

def DecryptionStorage.userDigest (s : DecryptionStorage) (decryptionId : Nat)
    (userDecryptedShare extraData : Bytes) : Bytes32 :=
  let payload := s.userDecryptionPayloads decryptionId
  hashUserDecryptResponseVerification D
    ⟨payload.publicKey, payload.ctHandles, userDecryptedShare, extraData⟩

def publicDecryptionResponse (tx : GatewayTx) (decryptionId : Nat)
    (decryptedResult signature extraData : Bytes) (s : DecryptionStorage) :
    DecryptionOutcome := do
  (GatewayConfigChecks.onlyKmsTxSender tx.config tx.sender).mapError fun e => .shared (.check e)
  require (¬ (decryptionId ≤ PUBLIC_DECRYPT_COUNTER_BASE ∨
    decryptionId > s.publicDecryptionCounter)) (.decryptionNotRequested decryptionId)
  let digest := s.publicDigest D decryptionId decryptedResult extraData
  let s ← validateDecryptionResponseEIP712Signature D tx decryptionId digest signature s
  let s := { s with
    verifiedPublicDecryptSignatures := update₂ s.verifiedPublicDecryptSignatures decryptionId
      digest (s.verifiedPublicDecryptSignatures decryptionId digest ++ [signature])
    consensusTxSenderAddresses := update₂ s.consensusTxSenderAddresses decryptionId digest
      (s.consensusTxSenderAddresses decryptionId digest ++ [tx.sender]) }
  let event := .publicDecryptionResponseCall decryptionId decryptedResult signature tx.sender
    extraData
  let verifiedSignatures := s.verifiedPublicDecryptSignatures decryptionId digest
  if s.decryptionDone decryptionId = false ∧
      tx.config.publicDecryptionThreshold ≤ verifiedSignatures.length then
    return ([event,
        .publicDecryptionResponse decryptionId decryptedResult verifiedSignatures extraData],
      { s with
        decryptionDone := Function.update s.decryptionDone decryptionId true
        decryptionConsensusDigest :=
          Function.update s.decryptionConsensusDigest decryptionId digest })
  else
    return ([event], s)

def userDecryptionResponse (tx : GatewayTx) (decryptionId : Nat)
    (userDecryptedShare signature extraData : Bytes) (s : DecryptionStorage) :
    DecryptionOutcome := do
  (GatewayConfigChecks.onlyKmsTxSender tx.config tx.sender).mapError fun e => .shared (.check e)
  require (¬ (decryptionId ≤ USER_DECRYPT_COUNTER_BASE ∨
    decryptionId > s.userDecryptionCounter)) (.decryptionNotRequested decryptionId)
  let digest := s.userDigest D decryptionId userDecryptedShare extraData
  let s ← validateDecryptionResponseEIP712Signature D tx decryptionId digest signature s
  -- shares differ, so they are counted under no digest
  let s := { s with
    consensusTxSenderAddresses := update₂ s.consensusTxSenderAddresses decryptionId 0
      (s.consensusTxSenderAddresses decryptionId 0 ++ [tx.sender]) }
  let txSenderAddresses := s.consensusTxSenderAddresses decryptionId 0
  let event := .userDecryptionResponse decryptionId (txSenderAddresses.length - 1)
    userDecryptedShare signature extraData
  if s.decryptionDone decryptionId = false ∧
      tx.config.userDecryptionThreshold ≤ txSenderAddresses.length then
    return ([event, .userDecryptionResponseThresholdReached decryptionId],
      { s with decryptionDone := Function.update s.decryptionDone decryptionId true })
  else
    return ([event], s)

/-! ## The contract -/

/-- The calls that can change the storage, with what other contracts answer. -/
inductive DecryptionCall
  | publicDecryptionRequest (ctHandles : List Bytes32) (extraData : Bytes) (env : RequestEnv)
  | userDecryptionRequest (request : UserDecryptionRequest) (env : RequestEnv)
  | publicDecryptionResponse (decryptionId : Nat) (decryptedResult signature extraData : Bytes)
  | userDecryptionResponse (decryptionId : Nat) (userDecryptedShare signature extraData : Bytes)
  | pause (isPauser : Bool)
  | unpause

/-- The contract: a call comes with its sender and the configuration it meets. -/
def decryption : Contract (GatewayTx × DecryptionCall) DecryptionStorage DecryptionError
    (List DecryptionEvent) where
  call i s :=
    match i.2 with
    | .publicDecryptionRequest ctHandles extraData env =>
      publicDecryptionRequest ctHandles extraData env s
    | .userDecryptionRequest request env => userDecryptionRequest D request env s
    | .publicDecryptionResponse id result signature extraData =>
      publicDecryptionResponse D i.1 id result signature extraData s
    | .userDecryptionResponse id share signature extraData =>
      userDecryptionResponse D i.1 id share signature extraData s
    | .pause isPauser => do
      let paused ← (pause D i.1 isPauser s.paused).mapError .shared
      return ([.paused i.1.sender], { s with paused := paused })
    | .unpause => do
      let paused ← (unpause D i.1 s.paused).mapError .shared
      return ([.unpaused i.1.sender], { s with paused := paused })

/-- The storage after a run from the initialised contract. -/
abbrev decryptionAfter (calls : List (GatewayTx × DecryptionCall)) : DecryptionStorage :=
  (decryption D).exec .init calls

end EntryPoints

/-! ## What requests check -/

section Requests

variable {D : GatewayDeployment} {s s' : DecryptionStorage} {ev : List DecryptionEvent}
  {env : RequestEnv}

/-- What is checked of each handle of a user's request. -/
structure PairAllowed (D : GatewayDeployment) (acl : MultichainACLAllows)
    (r : UserDecryptionRequest) (pair : CtHandleContractPair) : Prop where
  user : isAccountAllowed D acl pair.ctHandle r.userAddress = true
  contract : isAccountAllowed D acl pair.ctHandle pair.contractAddress = true
  listed : pair.contractAddress ∈ r.contractsInfo.addresses
  typed : ∃ fheType bitSize, extractFheType pair.ctHandle = some fheType ∧
    getBitSize fheType = .ok bitSize

theorem fheTypeOf_eq_ok {ctHandle : Bytes32} {fheType : FheType} :
    fheTypeOf ctHandle = .ok fheType ↔ extractFheType ctHandle = some fheType := by
  unfold fheTypeOf
  split <;> simp_all

theorem conformanceUser_ok {acl : MultichainACLAllows} {r : UserDecryptionRequest}
    {pairs : List CtHandleContractPair} {totalBitSize : Nat} {ctHandles : List Bytes32}
    (h : conformanceUser D acl r.contractsInfo.addresses r.userAddress pairs totalBitSize =
      .ok ctHandles) :
    ctHandles = pairs.map CtHandleContractPair.ctHandle ∧
      ∀ pair ∈ pairs, PairAllowed D acl r pair := by
  induction pairs generalizing totalBitSize ctHandles with
  | nil =>
    simp only [conformanceUser, bind_eq_ok, pure_eq_ok] at h
    obtain ⟨_, -, rfl⟩ := h
    simp
  | cons pair pairs ih =>
    simp only [conformanceUser, checkIsAccountAllowed, bind_eq_ok, require_eq_ok, pure_eq_ok,
      fheTypeOf_eq_ok, exists_const] at h
    obtain ⟨fheType, htype, bitSize, hsize, huser, hcontract, hlisted, rest, hrest, rfl⟩ := h
    obtain ⟨rfl, hpairs⟩ := ih hrest
    refine ⟨rfl, fun p hp => ?_⟩
    rcases List.mem_cons.mp hp with rfl | hp
    · exact ⟨huser, hcontract, hlisted, fheType, bitSize, htype, hsize⟩
    · exact hpairs p hp

/-- What an accepted request of a user satisfies. -/
structure UserRequestChecked (D : GatewayDeployment) (r : UserDecryptionRequest)
    (env : RequestEnv) : Prop where
  signed : D.recover (hashUserDecryptRequestVerification D r.verification r.contractsInfo.chainId)
    r.signature = some r.userAddress
  nonempty : r.ctHandleContractPairs ≠ []
  pairs : ∀ pair ∈ r.ctHandleContractPairs, PairAllowed D env.acl r pair
  userNotListed : r.userAddress ∉ r.contractsInfo.addresses
  started : r.requestValidity.startTimestamp ≤ env.timestamp
  notExpired : env.timestamp ≤
    r.requestValidity.startTimestamp + r.requestValidity.durationDays * 86400

/-- The storage after a user's request. -/
def DecryptionStorage.afterUserRequest (s : DecryptionStorage) (r : UserDecryptionRequest) :
    DecryptionStorage :=
  { s with
    userDecryptionCounter := s.userDecryptionCounter + 1
    userDecryptionPayloads := Function.update s.userDecryptionPayloads
      (s.userDecryptionCounter + 1)
      ⟨r.publicKey, r.ctHandleContractPairs.map CtHandleContractPair.ctHandle⟩ }

theorem userDecryptionRequest_ok {r : UserDecryptionRequest}
    (h : userDecryptionRequest D r env s = .ok (ev, s')) :
    UserRequestChecked D r env ∧ s' = s.afterUserRequest r ∧ ∃ materials,
      ev = [.userDecryptionRequest (s.userDecryptionCounter + 1) materials r.userAddress
        r.publicKey r.extraData] := by
  simp only [userDecryptionRequest, extractCtHandlesCheckConformanceUser,
    checkUserDecryptionRequestValidity, validateUserDecryptRequestEIP712Signature, bind_eq_ok,
    mapError_eq_ok, require_eq_ok, increment_eq_ok, recoverSigner_eq_ok, pure_eq_ok] at h
  obtain ⟨_, -, _, -, _, -, _, ⟨_, -, _, -, _, hstart, hexpired⟩, _, hlisted, ctHandles,
    ⟨_, hne, hconf⟩, _, ⟨signer, hrecover, rfl⟩, materials, -, _, -, _, ⟨-, rfl⟩, _, -, h⟩ := h
  obtain ⟨rfl, hpairs⟩ := conformanceUser_ok hconf
  cases h
  exact ⟨⟨hrecover, hne, hpairs, hlisted, by omega, by omega⟩, rfl, materials, rfl⟩

/-- The storage after a request for a public decryption. -/
def DecryptionStorage.afterPublicRequest (s : DecryptionStorage) (ctHandles : List Bytes32) :
    DecryptionStorage :=
  { s with
    publicDecryptionCounter := s.publicDecryptionCounter + 1
    publicCtHandles :=
      Function.update s.publicCtHandles (s.publicDecryptionCounter + 1) ctHandles }

theorem publicDecryptionRequest_ok {ctHandles : List Bytes32} {extraData : Bytes}
    (h : publicDecryptionRequest ctHandles extraData env s = .ok (ev, s')) :
    s' = s.afterPublicRequest ctHandles ∧ ∃ materials,
      ev = [.publicDecryptionRequest (s.publicDecryptionCounter + 1) materials extraData] := by
  simp only [publicDecryptionRequest, bind_eq_ok, mapError_eq_ok, increment_eq_ok] at h
  obtain ⟨_, -, _, -, _, -, materials, -, _, -, _, ⟨-, rfl⟩, _, -, h⟩ := h
  cases h
  exact ⟨rfl, materials, rfl⟩

end Requests

/-! ## Views -/

def getDecryptionConsensusTxSenders (s : DecryptionStorage) (decryptionId : Nat) : List Address :=
  s.consensusTxSenderAddresses decryptionId (s.decryptionConsensusDigest decryptionId)

end Fhevm.Gateway
