import Fhevm.Common.Evm

/-!
# The KMS generation contract

Requests for keys and for CRSs are issued under ids counted per kind, and the KMS
nodes answer them by signed responses until enough of them agree.

## Main definitions

* `KMSGenerationStorage` — the storage of the contract.
* `GatewayConfig` — what the contract reads of the gateway configuration at a call.
* `keygen`, `prepKeygenResponse`, `keygenResponse`, `crsgenRequest`, `crsgenResponse`,
  `keyReshareSameSet` — the entry points.
* `kmsGeneration` — the contract.
-/

namespace Fhevm.Gateway

open Foundation

/-! ## Request counters -/

inductive RequestType
  | deprecated
  | publicDecrypt
  | userDecrypt
  | prepKeygen
  | keygen
  | crsgen
  | keyReshare
deriving DecidableEq, Repr

/-- The position of the type in the enumeration. -/
def RequestType.toNat : RequestType → Nat
  | .deprecated => 0
  | .publicDecrypt => 1
  | .userDecrypt => 2
  | .prepKeygen => 3
  | .keygen => 4
  | .crsgen => 5
  | .keyReshare => 6

def REQUEST_TYPE_SHIFT : Nat := 248

/-- The first byte of an id is its request type, the other 31 count. -/
def counterBase (t : RequestType) : Nat := t.toNat <<< REQUEST_TYPE_SHIFT

def PREP_KEYGEN_COUNTER_BASE : Nat := counterBase .prepKeygen
def KEY_COUNTER_BASE : Nat := counterBase .keygen
def CRS_COUNTER_BASE : Nat := counterBase .crsgen
def KEY_RESHARE_COUNTER_BASE : Nat := counterBase .keyReshare

/-! ## Data -/

inductive ParamsType
  | default
  | test
deriving DecidableEq, Repr

inductive KeyType
  | serverKey
  | publicKey
deriving DecidableEq, Repr

structure KeyDigest where
  keyType : KeyType
  digest : Bytes
deriving DecidableEq, Repr

structure KmsNode where
  signerAddress : Address
  storageUrl : String
deriving DecidableEq, Repr

/-- What the contract asks of the gateway configuration, as it is at the time of a call. -/
structure GatewayConfig where
  owner : Address
  isKmsTxSender : Address → Bool
  isKmsSigner : Address → Bool
  getKmsNode : Address → KmsNode
  getKmsGenThreshold : Nat

/-- The EIP-712 structs that KMS nodes sign. -/
inductive Verification
  | prepKeygenVerification (prepKeygenId : Nat)
  | keygenVerification (prepKeygenId keyId : Nat) (keyDigests : List KeyDigest)
  | crsgenVerification (crsId maxBitLength : Nat) (crsDigest : Bytes)
deriving DecidableEq, Repr

/-- The hash of typed data and the recovery of a signer, which OpenZeppelin provides.
The recovery of a malformed signature reverts. -/
structure Eip712 where
  hashTypedDataV4 : Verification → Bytes32
  recover : Bytes32 → Bytes → Option Address

/-- The sender of a call and the configuration it meets. -/
structure Msg where
  sender : Address
  config : GatewayConfig

structure KMSGenerationStorage where
  kmsHasSignedForResponse : Nat → Address → Bool
  isRequestDone : Nat → Bool
  consensusTxSenderAddresses : Nat → Bytes32 → List Address
  consensusDigest : Nat → Bytes32
  prepKeygenCounter : Nat
  keyCounter : Nat
  keygenIdPairs : Nat → Nat
  keyDigests : Nat → List KeyDigest
  activeKeyId : Nat
  crsCounter : Nat
  crsMaxBitLength : Nat → Nat
  crsDigests : Nat → Bytes
  activeCrsId : Nat
  requestParamsType : Nat → ParamsType
  keyReshareCounter : Nat

/-- The storage after `initializeFromEmptyProxy`. -/
def initializeFromEmptyProxy : KMSGenerationStorage where
  kmsHasSignedForResponse _ _ := false
  isRequestDone _ := false
  consensusTxSenderAddresses _ _ := []
  consensusDigest _ := 0
  prepKeygenCounter := PREP_KEYGEN_COUNTER_BASE
  keyCounter := KEY_COUNTER_BASE
  keygenIdPairs _ := 0
  keyDigests _ := []
  activeKeyId := 0
  crsCounter := CRS_COUNTER_BASE
  crsMaxBitLength _ := 0
  crsDigests _ := []
  activeCrsId := 0
  requestParamsType _ := .default
  keyReshareCounter := KEY_RESHARE_COUNTER_BASE

inductive KMSGenerationEvent
  | prepKeygenRequest (prepKeygenId epochId : Nat) (paramsType : ParamsType)
  | prepKeygenResponse (prepKeygenId : Nat) (signature : Bytes) (kmsTxSender : Address)
  | keygenRequest (prepKeygenId keyId : Nat)
  | keygenResponse (keyId : Nat) (keyDigests : List KeyDigest) (signature : Bytes)
      (kmsTxSender : Address)
  | activateKey (keyId : Nat) (kmsNodeStorageUrls : List String) (keyDigests : List KeyDigest)
  | crsgenRequest (crsId maxBitLength : Nat) (paramsType : ParamsType)
  | crsgenResponse (crsId : Nat) (crsDigest signature : Bytes) (kmsTxSender : Address)
  | activateCrs (crsId : Nat) (kmsNodeStorageUrls : List String) (crsDigest : Bytes)
  | prssInit
  | keyReshareSameSet (prepKeygenId keyId keyReshareId : Nat) (paramsType : ParamsType)
deriving DecidableEq, Repr

inductive KMSGenerationError
  | notGatewayOwner (sender : Address)
  | notKmsTxSender (txSenderAddress : Address)
  | notKmsSigner (signerAddress : Address)
  | kmsSignerDoesNotMatchTxSender (signerAddress txSenderAddress : Address)
  | ecdsaInvalidSignature
  | prepKeygenNotRequested (prepKeygenId : Nat)
  | keygenOngoing (keyId : Nat)
  | kmsAlreadySignedForPrepKeygen (prepKeygenId : Nat) (kmsSigner : Address)
  | keygenNotRequested (keyId : Nat)
  | kmsAlreadySignedForKeygen (keyId : Nat) (kmsSigner : Address)
  | crsgenNotRequested (crsId : Nat)
  | crsgenOngoing (crsId : Nat)
  | kmsAlreadySignedForCrsgen (crsId : Nat) (kmsSigner : Address)
  | keyNotGenerated (keyId : Nat)
  | crsNotGenerated (crsId : Nat)
  | overflow
deriving DecidableEq, Repr

/-- The outcome of a function of the contract: what it returns, or a revert. -/
abbrev Result := Except KMSGenerationError

/-! ## Requests -/

def onlyGatewayOwner (msg : Msg) : Result Unit :=
  require (msg.sender = msg.config.owner) (.notGatewayOwner msg.sender)

def onlyKmsTxSender (msg : Msg) : Result Unit :=
  require (msg.config.isKmsTxSender msg.sender = true) (.notKmsTxSender msg.sender)

def keygen (msg : Msg) (paramsType : ParamsType) (s : KMSGenerationStorage) :
    Result (List KMSGenerationEvent × KMSGenerationStorage) := do
  onlyGatewayOwner msg
  -- the first request has no previous key
  let previousKeyId := s.keyCounter
  require (previousKeyId = KEY_COUNTER_BASE ∨ s.isRequestDone previousKeyId = true)
    (.keygenOngoing previousKeyId)
  let prepKeygenId ← increment 256 s.prepKeygenCounter .overflow
  let keyId ← increment 256 s.keyCounter .overflow
  return ([.prepKeygenRequest prepKeygenId 0 paramsType],
    { s with
      prepKeygenCounter := prepKeygenId
      keyCounter := keyId
      keygenIdPairs :=
        Function.update (Function.update s.keygenIdPairs prepKeygenId keyId) keyId prepKeygenId
      requestParamsType := Function.update s.requestParamsType prepKeygenId paramsType })

def crsgenRequest (msg : Msg) (maxBitLength : Nat) (paramsType : ParamsType)
    (s : KMSGenerationStorage) : Result (List KMSGenerationEvent × KMSGenerationStorage) := do
  onlyGatewayOwner msg
  let previousCrsId := s.crsCounter
  require (previousCrsId = CRS_COUNTER_BASE ∨ s.isRequestDone previousCrsId = true)
    (.crsgenOngoing previousCrsId)
  let crsId ← increment 256 s.crsCounter .overflow
  return ([.crsgenRequest crsId maxBitLength paramsType],
    { s with
      crsCounter := crsId
      crsMaxBitLength := Function.update s.crsMaxBitLength crsId maxBitLength
      requestParamsType := Function.update s.requestParamsType crsId paramsType })

def prssInit (msg : Msg) (s : KMSGenerationStorage) :
    Result (List KMSGenerationEvent × KMSGenerationStorage) := do
  onlyGatewayOwner msg
  return ([.prssInit], s)

def keyReshareSameSet (msg : Msg) (keyId : Nat) (s : KMSGenerationStorage) :
    Result (List KMSGenerationEvent × KMSGenerationStorage) := do
  onlyGatewayOwner msg
  require (s.isRequestDone keyId = true) (.keyNotGenerated keyId)
  let prepKeygenId := s.keygenIdPairs keyId
  let paramsType := s.requestParamsType prepKeygenId
  let keyReshareId ← increment 256 s.keyReshareCounter .overflow
  return ([.keyReshareSameSet prepKeygenId keyId keyReshareId paramsType],
    { s with keyReshareCounter := keyReshareId })

/-! ## Responses -/

/-- The signer of the digest, who has to be the signer of the sender's own KMS node. -/
def validateEIP712Signature (E : Eip712) (msg : Msg) (digest : Bytes32) (signature : Bytes) :
    Result Address := do
  match E.recover digest signature with
  | none => .error .ecdsaInvalidSignature
  | some signer =>
    require (msg.config.isKmsSigner signer = true) (.notKmsSigner signer)
    require ((msg.config.getKmsNode msg.sender).signerAddress = signer)
      (.kmsSignerDoesNotMatchTxSender signer msg.sender)
    return signer

def isKmsConsensusReached (msg : Msg) (kmsCounter : Nat) : Bool :=
  decide (msg.config.getKmsGenThreshold ≤ kmsCounter)

/-- What the three responses do with a signed response before they look for consensus:
the signer is marked and the sender kept, also when the request is already done. -/
def storeResponse (E : Eip712) (msg : Msg) (requestId : Nat) (digest : Bytes32)
    (signature : Bytes) (alreadySigned : Nat → Address → KMSGenerationError)
    (s : KMSGenerationStorage) : Result KMSGenerationStorage := do
  let kmsSigner ← validateEIP712Signature E msg digest signature
  require (s.kmsHasSignedForResponse requestId kmsSigner = false)
    (alreadySigned requestId kmsSigner)
  return { s with
    kmsHasSignedForResponse := Function.update s.kmsHasSignedForResponse requestId
      (Function.update (s.kmsHasSignedForResponse requestId) kmsSigner true)
    consensusTxSenderAddresses := Function.update s.consensusTxSenderAddresses requestId
      (Function.update (s.consensusTxSenderAddresses requestId) digest
        (s.consensusTxSenderAddresses requestId digest ++ [msg.sender])) }

/-- The request is not done yet and has now enough responses with this digest. -/
def reachesConsensus (msg : Msg) (requestId : Nat) (digest : Bytes32)
    (s : KMSGenerationStorage) : Bool :=
  !s.isRequestDone requestId &&
    isKmsConsensusReached msg (s.consensusTxSenderAddresses requestId digest).length

/-- The storage URLs of the nodes that sent the digest. -/
def consensusUrls (msg : Msg) (requestId : Nat) (digest : Bytes32) (s : KMSGenerationStorage) :
    List String :=
  (s.consensusTxSenderAddresses requestId digest).map
    fun txSender => (msg.config.getKmsNode txSender).storageUrl

/-- The storage with the request done on this digest. -/
def setRequestDone (requestId : Nat) (digest : Bytes32) (s : KMSGenerationStorage) :
    KMSGenerationStorage :=
  { s with
    isRequestDone := Function.update s.isRequestDone requestId true
    consensusDigest := Function.update s.consensusDigest requestId digest }

/-- The course of a response. `activate` is what the kind of request does once it is done;
a late response is stored and nothing else. -/
def respond (E : Eip712) (msg : Msg) (requestId counter : Nat)
    (notRequested : Nat → KMSGenerationError) (digest : Bytes32) (signature : Bytes)
    (alreadySigned : Nat → Address → KMSGenerationError) (response : KMSGenerationEvent)
    (activate : KMSGenerationStorage → List KMSGenerationEvent × KMSGenerationStorage)
    (s : KMSGenerationStorage) : Result (List KMSGenerationEvent × KMSGenerationStorage) := do
  onlyKmsTxSender msg
  require (¬ (requestId > counter ∨ requestId = 0)) (notRequested requestId)
  let s ← storeResponse E msg requestId digest signature alreadySigned s
  if reachesConsensus msg requestId digest s then
    let r := activate (setRequestDone requestId digest s)
    return (response :: r.1, r.2)
  else
    return ([response], s)

def prepKeygenResponse (E : Eip712) (msg : Msg) (prepKeygenId : Nat) (signature : Bytes)
    (s : KMSGenerationStorage) : Result (List KMSGenerationEvent × KMSGenerationStorage) :=
  let digest := E.hashTypedDataV4 (.prepKeygenVerification prepKeygenId)
  respond E msg prepKeygenId s.prepKeygenCounter .prepKeygenNotRequested digest signature
    .kmsAlreadySignedForPrepKeygen (.prepKeygenResponse prepKeygenId signature msg.sender)
    (fun s => ([.keygenRequest prepKeygenId (s.keygenIdPairs prepKeygenId)], s)) s

def keygenResponse (E : Eip712) (msg : Msg) (keyId : Nat) (keyDigests : List KeyDigest)
    (signature : Bytes) (s : KMSGenerationStorage) :
    Result (List KMSGenerationEvent × KMSGenerationStorage) :=
  let prepKeygenId := s.keygenIdPairs keyId
  let digest := E.hashTypedDataV4 (.keygenVerification prepKeygenId keyId keyDigests)
  respond E msg keyId s.keyCounter .keygenNotRequested digest signature
    .kmsAlreadySignedForKeygen (.keygenResponse keyId keyDigests signature msg.sender)
    -- the digests are pushed one by one on those stored before
    (fun s => ([.activateKey keyId (consensusUrls msg keyId digest s) keyDigests],
      { s with
        keyDigests := Function.update s.keyDigests keyId (s.keyDigests keyId ++ keyDigests)
        activeKeyId := keyId })) s

def crsgenResponse (E : Eip712) (msg : Msg) (crsId : Nat) (crsDigest signature : Bytes)
    (s : KMSGenerationStorage) : Result (List KMSGenerationEvent × KMSGenerationStorage) :=
  let maxBitLength := s.crsMaxBitLength crsId
  let digest := E.hashTypedDataV4 (.crsgenVerification crsId maxBitLength crsDigest)
  respond E msg crsId s.crsCounter .crsgenNotRequested digest signature
    .kmsAlreadySignedForCrsgen (.crsgenResponse crsId crsDigest signature msg.sender)
    (fun s => ([.activateCrs crsId (consensusUrls msg crsId digest s) crsDigest],
      { s with
        crsDigests := Function.update s.crsDigests crsId crsDigest
        activeCrsId := crsId })) s

/-! ## Views -/

/-- The senders of the digest on which consensus was reached, none before. -/
def getConsensusTxSenders (s : KMSGenerationStorage) (requestId : Nat) : List Address :=
  s.consensusTxSenderAddresses requestId (s.consensusDigest requestId)

def getKeyMaterials (config : GatewayConfig) (s : KMSGenerationStorage) (keyId : Nat) :
    Result (List String × List KeyDigest) := do
  require (s.isRequestDone keyId = true) (.keyNotGenerated keyId)
  return ((getConsensusTxSenders s keyId).map fun a => (config.getKmsNode a).storageUrl,
    s.keyDigests keyId)

/-- The calls that can change the storage. -/
inductive KMSGenerationCall
  | keygen (paramsType : ParamsType)
  | prepKeygenResponse (prepKeygenId : Nat) (signature : Bytes)
  | keygenResponse (keyId : Nat) (keyDigests : List KeyDigest) (signature : Bytes)
  | crsgenRequest (maxBitLength : Nat) (paramsType : ParamsType)
  | crsgenResponse (crsId : Nat) (crsDigest signature : Bytes)
  | prssInit
  | keyReshareSameSet (keyId : Nat)
deriving DecidableEq, Repr

/-- The contract: each call comes with its sender and the configuration it meets. -/
def kmsGeneration (E : Eip712) :
    Contract (Msg × KMSGenerationCall) KMSGenerationStorage KMSGenerationError
      (List KMSGenerationEvent) where
  call i s :=
    match i.2 with
    | .keygen paramsType => keygen i.1 paramsType s
    | .prepKeygenResponse id signature => prepKeygenResponse E i.1 id signature s
    | .keygenResponse id digests signature => keygenResponse E i.1 id digests signature s
    | .crsgenRequest maxBitLength paramsType => crsgenRequest i.1 maxBitLength paramsType s
    | .crsgenResponse id digest signature => crsgenResponse E i.1 id digest signature s
    | .prssInit => prssInit i.1 s
    | .keyReshareSameSet keyId => keyReshareSameSet i.1 keyId s

/-- The storage after a run from the initialised contract. -/
abbrev kmsAfter (E : Eip712) (calls : List (Msg × KMSGenerationCall)) : KMSGenerationStorage :=
  (kmsGeneration E).exec initializeFromEmptyProxy calls

end Fhevm.Gateway
