import Fhevm.KmsConnector.GwEvent
import Fhevm.Sdk.Eip712

/-!
# The requests of a KMS connector

A worker turns an event into a request to the KMS core. For decryptions it gets the ciphertexts from
the buckets of the coprocessors.

## Main definitions

* `KmsGrpcRequest` — the requests.
* `retrieveSnsCiphertextMaterials` — the ciphertexts of a decryption, with their types.
* `prepareDecryptionRequest`, `prepareCrsgenRequest`, … — the requests for events.
* `prepareRequest` — all of them.
-/

namespace Fhevm.KmsConnector

open Foundation Gateway Host Sdk

/-! ## Messages -/

/-- The digits of a number with its most significant byte first. -/
abbrev RequestId := String

def requestIdOf (id : U256) : RequestId := String.ofList (hexEncode (wordBytes id))

def decodeRequestId (requestId : RequestId) : Option U256 := do
  let bytes ← hexDecode requestId.toList
  toBytes32 bytes

@[simp] theorem decodeRequestId_requestIdOf (id : U256) :
    decodeRequestId (requestIdOf id) = some id := by
  simp [decodeRequestId, requestIdOf, hexDecode_hexEncode]

structure Eip712DomainMsg where
  name : String
  version : String
  chainId : Bytes
  verifyingContract : String
  salt : Option Bytes
deriving DecidableEq, Repr

inductive CiphertextFormat
  | bigCompressed
  | bigExpanded
deriving DecidableEq, Repr

structure TypedCiphertext where
  ciphertext : Bytes
  externalHandle : Bytes
  fheType : ℕ
  ciphertextFormat : CiphertextFormat
deriving DecidableEq, Repr

structure PublicDecryptionRequest where
  requestId : Option RequestId
  ciphertexts : List TypedCiphertext
  keyId : Option RequestId
  domain : Option Eip712DomainMsg
  extraData : Bytes
  epochId : Option RequestId := none
  contextId : Option RequestId := none
deriving DecidableEq, Repr

structure UserDecryptionRequest where
  requestId : Option RequestId
  clientAddress : String
  keyId : Option RequestId
  domain : Option Eip712DomainMsg
  encKey : Bytes
  typedCiphertexts : List TypedCiphertext
  extraData : Bytes
  epochId : Option RequestId := none
  contextId : Option RequestId := none
deriving DecidableEq, Repr

structure KeyGenPreprocRequest where
  requestId : Option RequestId
  domain : Option Eip712DomainMsg
  params : ℕ
  epochId : Option RequestId := none
  contextId : Option RequestId := none
deriving DecidableEq, Repr

structure KeyGenRequest where
  requestId : Option RequestId
  preprocId : Option RequestId
  domain : Option Eip712DomainMsg
  params : Option ℕ := none
  epochId : Option RequestId := none
  contextId : Option RequestId := none
deriving DecidableEq, Repr

structure CrsGenRequest where
  requestId : Option RequestId
  domain : Option Eip712DomainMsg
  params : ℕ
  maxNumBits : Option UInt32
  contextId : Option RequestId := none
deriving DecidableEq, Repr

structure InitRequest where
  requestId : Option RequestId
deriving DecidableEq, Repr

structure InitiateResharingRequest where
  requestId : Option RequestId
  keyId : Option RequestId
  preprocId : Option RequestId
  keyParameters : ℕ
  domain : Option Eip712DomainMsg
  epochId : Option RequestId := none
  contextId : Option RequestId := none
deriving DecidableEq, Repr

inductive KmsGrpcRequest
  | publicDecryption (request : PublicDecryptionRequest)
  | userDecryption (request : UserDecryptionRequest)
  | prepKeygen (request : KeyGenPreprocRequest)
  | keygen (request : KeyGenRequest)
  | crsgen (request : CrsGenRequest)
  | prssInit (request : InitRequest)
  | keyReshareSameSet (request : InitiateResharingRequest)
deriving DecidableEq, Repr

/-! ## Domains -/

structure Eip712Domain where
  name : Option String
  version : Option String
  chainId : Option U256
  verifyingContract : Option Address
  salt : Option Bytes32
deriving DecidableEq, Repr

structure ContractConfig where
  address : Address
  domainName : String
  domainVersion : String
deriving DecidableEq, Repr

structure Config where
  chainId : UInt64
  decryptionContract : ContractConfig
  kmsGenerationContract : ContractConfig
  s3CiphertextRetrievalRetries : UInt8
deriving DecidableEq, Repr

/-- The domain of a contract. -/
def Config.domain (config : Config) (contract : ContractConfig) : Eip712Domain where
  name := some contract.domainName
  version := some contract.domainVersion
  chainId := some (BitVec.ofNat 256 config.chainId.toNat)
  verifyingContract := some contract.address
  salt := none

section Domains

variable (keccak256 : Bytes → Bytes32)

def alloyToProtobufDomain (domain : Eip712Domain) : Option Eip712DomainMsg := do
  let name ← domain.name
  let version ← domain.version
  let chainId ← domain.chainId
  let verifyingContract ← domain.verifyingContract
  return {
    name, version
    chainId := wordBytes chainId
    verifyingContract := addressText keccak256 verifyingContract
    salt := domain.salt.map wordBytes }

/-- `Address::parse_checksummed` -/
def parseChecksummed (text : String) : Option Address := do
  let digits ← match text.toList with
    | '0' :: 'x' :: digits => some digits
    | _ => none
  let bytes ← hexDecode digits
  let address ← toAddress bytes
  guard (addressText keccak256 address = text)
  return address

/-- A salt of the wrong length is left out. -/
def protobufToAlloyDomain (domain : Eip712DomainMsg) : Option Eip712Domain := do
  guard (BigEndian.decode domain.chainId < 2 ^ 256)
  let verifyingContract ← parseChecksummed keccak256 domain.verifyingContract
  return {
    name := some domain.name
    version := some domain.version
    chainId := some (BitVec.ofNat 256 (BigEndian.decode domain.chainId))
    verifyingContract := some verifyingContract
    salt := domain.salt.bind toBytes32 }

/-- `trim_start_matches("0x")` -/
def trimHexPrefix : List Char → List Char
  | '0' :: 'x' :: rest => trimHexPrefix rest
  | text => text

/-- The address that the KMS core gets as text. -/
def clientAddressOf (text : String) : Option Address := do
  let bytes ← hexDecode (trimHexPrefix text.toList)
  toAddress bytes

/-- What does not fail here is only logged. -/
def verifyUserDecryptionEip712 (request : UserDecryptionRequest) : Option Unit := do
  let domainMsg ← request.domain
  let domain ← protobufToAlloyDomain keccak256 domainMsg
  let _ ← clientAddressOf request.clientAddress
  let _ ← domain.verifyingContract
  return ()

end Domains

/-! ## Ciphertexts -/

/-- What the buckets and the gateway answer in the course of a retrieval. -/
structure S3Answers where
  /-- The URL of the bucket of a coprocessor. -/
  getCoprocessorS3Url : Address → Option String
  /-- The body at a URL and the header for its format, for each bucket that is asked in an attempt. -/
  get : ℕ × ℕ → String → Option (Bytes × Option String)

/-- The libraries of a worker. -/
structure KmsLibrary where
  keccak256 : Bytes → Bytes32
  /-- The discriminants of `FheTypes`. -/
  isFheType : ℕ → Bool

section Ciphertexts

variable (L : KmsLibrary)

def extractFheTypeFromHandle (bytes : Bytes) : Option ℕ := do
  guard (bytes.length ≥ 32)
  let typeByte ← bytes[30]?
  guard (L.isFheType typeByte.toNat = true)
  return typeByte.toNat

def ciphertextFormat : Option String → CiphertextFormat
  | some "compressed_on_cpu" | some "compressed_on_gpu" => .bigCompressed
  | _ => .bigExpanded

def retrieveS3Ciphertext (s3 : S3Answers) (attempt : ℕ × ℕ) (m : SnsCiphertextMaterial)
    (s3BucketUrl : String) : Option TypedCiphertext := do
  let fheType ← extractFheTypeFromHandle L (wordBytes m.ctHandle)
  let digestHex := String.ofList (hexEncode (wordBytes m.snsCiphertextDigest))
  let (ciphertext, format) ← s3.get attempt (s3BucketUrl ++ "/" ++ digestHex)
  guard (L.keccak256 ciphertext = m.snsCiphertextDigest)
  return {
    ciphertext
    externalHandle := wordBytes m.ctHandle
    fheType
    ciphertextFormat := ciphertextFormat format }

/-- In each attempt, the buckets of all coprocessors of the material are asked. -/
def retrieveS3CiphertextWithRetry (config : Config) (s3 : S3Answers)
    (m : SnsCiphertextMaterial) : Option TypedCiphertext :=
  let s3Urls := m.coprocessorTxSenderAddresses.filterMap s3.getCoprocessorS3Url
  (List.range config.s3CiphertextRetrievalRetries.toNat).findSome? fun attempt =>
    s3Urls.zipIdx.findSome? fun (s3Url, bucket) => retrieveS3Ciphertext L s3 (attempt, bucket) m s3Url

def retrieveSnsCiphertextMaterials (config : Config) (s3 : S3Answers)
    (materials : List SnsCiphertextMaterial) : Option (List TypedCiphertext) :=
  materials.mapM (retrieveS3CiphertextWithRetry L config s3)

def prepareCiphertexts (config : Config) (s3 : S3Answers)
    (materials : List SnsCiphertextMaterial) : Option (List TypedCiphertext) := do
  let ciphertexts ← retrieveSnsCiphertextMaterials L config s3 materials
  guard (ciphertexts ≠ [])
  return ciphertexts

end Ciphertexts

/-! ## Requests -/

structure UserDecryptionExtraData where
  userAddress : Address
  publicKey : Bytes

section Requests

variable (L : KmsLibrary) (config : Config)

/-- The key is that of the first material. -/
def prepareDecryptionRequest (s3 : S3Answers) (decryptionId : U256)
    (snsMaterials : List SnsCiphertextMaterial) (extraData : Bytes)
    (userDecryptData : Option UserDecryptionExtraData) : Option KmsGrpcRequest := do
  let first ← snsMaterials.head?
  let ciphertexts ← prepareCiphertexts L config s3 snsMaterials
  let domainMsg ← alloyToProtobufDomain L.keccak256 (config.domain config.decryptionContract)
  match userDecryptData with
  | some data =>
    let request : UserDecryptionRequest := {
      requestId := some (requestIdOf decryptionId)
      clientAddress := addressText L.keccak256 data.userAddress
      keyId := some (requestIdOf first.keyId)
      domain := some domainMsg
      encKey := data.publicKey
      typedCiphertexts := ciphertexts
      extraData }
    verifyUserDecryptionEip712 L.keccak256 request
    return .userDecryption request
  | none =>
    return .publicDecryption {
      requestId := some (requestIdOf decryptionId)
      ciphertexts
      keyId := some (requestIdOf first.keyId)
      domain := some domainMsg
      extraData }

def preparePrepKeygenRequest (prepKeygenId : U256) (paramsType : UInt8) : Option KmsGrpcRequest := do
  let domainMsg ← alloyToProtobufDomain L.keccak256 (config.domain config.kmsGenerationContract)
  return .prepKeygen {
    requestId := some (requestIdOf prepKeygenId)
    domain := some domainMsg
    params := paramsType.toNat }

def prepareKeygenRequest (prepKeygenId keyId : U256) : Option KmsGrpcRequest := do
  let domainMsg ← alloyToProtobufDomain L.keccak256 (config.domain config.kmsGenerationContract)
  return .keygen {
    requestId := some (requestIdOf keyId)
    preprocId := some (requestIdOf prepKeygenId)
    domain := some domainMsg }

/-- `as_le_slice().get(0..4)`, which is never missing and always has four bytes. -/
def maxNumBitsOf (maxBitLength : U256) : Option UInt32 := do
  let lsb := (asLeSlice maxBitLength).take 4
  guard (lsb.length = 4)
  return UInt32.ofNat (LittleEndian.decode lsb)

def prepareCrsgenRequest (crsId maxBitLength : U256) (paramsType : UInt8) :
    Option KmsGrpcRequest := do
  let domainMsg ← alloyToProtobufDomain L.keccak256 (config.domain config.kmsGenerationContract)
  return .crsgen {
    requestId := some (requestIdOf crsId)
    domain := some domainMsg
    params := paramsType.toNat
    maxNumBits := maxNumBitsOf maxBitLength }

def preparePrssInitRequest (id : U256) : KmsGrpcRequest :=
  .prssInit { requestId := some (requestIdOf id) }

def prepareInitiateResharingRequest (prepKeygenId keyId keyReshareId : U256) (paramsType : UInt8) :
    Option KmsGrpcRequest := do
  let domainMsg ← alloyToProtobufDomain L.keccak256 (config.domain config.kmsGenerationContract)
  return .keyReshareSameSet {
    requestId := some (requestIdOf keyReshareId)
    keyId := some (requestIdOf keyId)
    preprocId := some (requestIdOf prepKeygenId)
    keyParameters := paramsType.toNat
    domain := some domainMsg }

def prepareRequest (s3 : S3Answers) : GatewayEventKind → Option KmsGrpcRequest
  | .publicDecryption decryptionId snsCtMaterials extraData =>
    prepareDecryptionRequest L config s3 decryptionId snsCtMaterials extraData none
  | .userDecryption decryptionId snsCtMaterials userAddress publicKey extraData =>
    prepareDecryptionRequest L config s3 decryptionId snsCtMaterials extraData
      (some ⟨userAddress, publicKey⟩)
  | .prepKeygen prepKeygenId _ paramsType =>
    preparePrepKeygenRequest L config prepKeygenId paramsType
  | .keygen prepKeygenId keyId => prepareKeygenRequest L config prepKeygenId keyId
  | .crsgen crsId maxBitLength paramsType =>
    prepareCrsgenRequest L config crsId maxBitLength paramsType
  | .prssInit id => some (preparePrssInitRequest id)
  | .keyReshareSameSet prepKeygenId keyId keyReshareId paramsType =>
    prepareInitiateResharingRequest L config prepKeygenId keyId keyReshareId paramsType

end Requests

/-! ## Samples -/

/-- The context of no trace. -/
def sampleBc2wrap : Bc2wrap where
  serialize context := if context = [] then some (List.replicate 8 0) else none
  deserialize bytes := if bytes = List.replicate 8 0 then some [] else none

def sampleKmsLibrary : KmsLibrary where
  keccak256 _ := 0
  isFheType n := decide (n < 84)

def sampleConfig : Config where
  chainId := 54321
  decryptionContract := ⟨1, "Decryption", "1"⟩
  kmsGenerationContract := ⟨2, "KMSGeneration", "1"⟩
  s3CiphertextRetrievalRetries := 3

end Fhevm.KmsConnector
