import Fhevm.Host.PackedInputs
import Fhevm.Sdk.InputHandles

/-!
# Encrypted inputs of the SDK

A builder of the SDK collects values and encrypts them into one list. It has limits of its own on
the bits and on the number of the values.

## Main definitions

* `EncryptedInputBuilder` — the builder, with what each of its methods does.
* `BuilderCall`, `EncryptedInputBuilder.after` — sequences of calls.
* `EncryptedInputBuilder.encryptAndProveFor` — the input that is made of the values.
-/

namespace Fhevm.Sdk

open Foundation Contract Host

/-- The ciphertext of a list, and the handles of its values. -/
structure EncryptedInput where
  ciphertext : Bytes
  handles : List Bytes
  contractAddress : Address
  userAddress : Address
  chainId : UInt64

/-- The builder of the FHE library is the list of the values pushed so far. -/
structure EncryptedInputBuilder where
  aclContractAddress : Address
  chainId : UInt64
  builder : List (EncryptionType × Nat)
  bits : List Nat
deriving DecidableEq, Repr

/-- The part of the FHE library that makes lists of inputs. -/
structure EncryptionLibrary where
  /-- The error of `push_with_num_bits` on a number of bits that it does not take. -/
  pushWithNumBits : Nat → Except String Unit
  buildWithProofPacked : List (EncryptionType × Nat) → Bytes → Except String Bytes
  safeSerialize : Bytes → Except String Bytes

abbrev BuilderM := ExceptT SdkError (StateM EncryptedInputBuilder)

/-- What can be added as a number of 256 bits. -/
inductive IntoU256
  | slice (bytes : Bytes)
  | u256 (value : BitVec 256)
deriving DecidableEq, Repr

def IntoU256.intoU256Bytes : IntoU256 → SdkResult Bytes
  | .slice bytes => do
    require (¬ bytes.length > 32) (.encryptionError "Value exceeds 256 bits")
    return List.replicate (32 - bytes.length) 0 ++ bytes
  | .u256 value => .ok (wordBytes value)

namespace EncryptedInputBuilder

def new (aclContractAddress : Address) (chainId : UInt64) : EncryptedInputBuilder :=
  ⟨aclContractAddress, chainId, [], []⟩

/-! ## Methods -/

def checkLimit (addedBits : Nat) : BuilderM Unit := do
  let b ← get
  let totalBits := b.bits.sum + addedBits
  if totalBits > 2048 then
    throw (.encryptionError "Exceeds maximum 2048 bits in a single input ciphertext")
  if b.bits.length + 1 > 256 then
    throw (.encryptionError "Exceeds maximum 256 variables in a single input ciphertext")

def push (type : EncryptionType) (value : Nat) : BuilderM Unit :=
  modify fun b => { b with builder := b.builder ++ [(type, value)] }

def pushBits (width : Nat) : BuilderM Unit :=
  modify fun b => { b with bits := b.bits ++ [width] }

def addBool (value : Bool) : BuilderM Unit := do
  checkLimit 2 -- ebool takes 2 encrypted bits
  push .bit1 value.toNat
  pushBits 1

def addU8 (value : UInt8) : BuilderM Unit := do
  checkLimit 8
  push .bit8 value.toNat
  pushBits 8

def addU16 (value : UInt16) : BuilderM Unit := do
  checkLimit 16
  push .bit16 value.toNat
  pushBits 16

def addU32 (value : UInt32) : BuilderM Unit := do
  checkLimit 32
  push .bit32 value.toNat
  pushBits 32

def addU64 (value : UInt64) : BuilderM Unit := do
  checkLimit 64
  push .bit64 value.toNat
  pushBits 64

def addU128 (value : BitVec 128) : BuilderM Unit := do
  checkLimit 128
  push .bit128 value.toNat
  pushBits 128

/-- The 20 bytes of an address, whose text may start with `0x`. -/
def parseAddress (address : String) : SdkResult Bytes := do
  let address :=
    match address.toList with
    | '0' :: 'x' :: stripped => stripped
    | text => text
  require ((String.ofList address).utf8ByteSize = 40) (.encryptionError "Invalid address length")
  (hexDecode address).elim (.error (.encryptionError "Invalid hex in address")) .ok

variable (T : EncryptionLibrary)

def addAddress (address : String) : BuilderM Unit := do
  let addressBytes ← ExceptT.mk (pure (parseAddress address))
  let paddedBytes := List.replicate 12 0 ++ addressBytes
  checkLimit 160
  ExceptT.mk (pure ((T.pushWithNumBits 160).mapError fun e =>
    .encryptionError ("Failed to push address: " ++ e)))
  push .bit160 (BigEndian.decode paddedBytes)
  pushBits 160

def addU256 (value : IntoU256) : BuilderM Unit := do
  checkLimit 256
  let bytes ← ExceptT.mk (pure value.intoU256Bytes)
  push .bit256 (BigEndian.decode bytes)
  pushBits 256

def clear : BuilderM Unit := modify fun b => { b with builder := [], bits := [] }

variable (b : EncryptedInputBuilder)

def getBits : List Nat := b.bits

def createAuxiliaryData (contractAddress userAddress : Address) : Bytes :=
  addressBytes contractAddress ++ addressBytes userAddress ++ addressBytes b.aclContractAddress ++
    chainIdToBytes b.chainId

def buildWithProof (auxiliaryData : Bytes) : SdkResult Bytes := do
  let provenCompactList ← (T.buildWithProofPacked b.builder auxiliaryData).mapError fun e =>
    .encryptionError ("Failed to build proof: " ++ e)
  (T.safeSerialize provenCompactList).mapError fun e =>
    .encryptionError ("Failed to serialize: " ++ e)

def encryptAndProveFor (keccak256 : Bytes → Bytes32) (contractAddress userAddress : Address) :
    SdkResult EncryptedInput := do
  let ciphertext ← b.buildWithProof T (b.createAuxiliaryData contractAddress userAddress)
  let handles ← computeHandles keccak256 ciphertext b.getBits b.aclContractAddress b.chainId
    CIPHERTEXT_VERSION
  return ⟨ciphertext, handles, contractAddress, userAddress, b.chainId⟩

end EncryptedInputBuilder

/-! ## Calls -/

inductive BuilderCall
  | addBool (value : Bool)
  | addU8 (value : UInt8)
  | addU16 (value : UInt16)
  | addU32 (value : UInt32)
  | addU64 (value : UInt64)
  | addU128 (value : BitVec 128)
  | addAddress (address : String)
  | addU256 (value : IntoU256)
  | clear
deriving DecidableEq, Repr

variable (T : EncryptionLibrary)

def BuilderCall.method : BuilderCall → BuilderM Unit
  | .addBool value => EncryptedInputBuilder.addBool value
  | .addU8 value => EncryptedInputBuilder.addU8 value
  | .addU16 value => EncryptedInputBuilder.addU16 value
  | .addU32 value => EncryptedInputBuilder.addU32 value
  | .addU64 value => EncryptedInputBuilder.addU64 value
  | .addU128 value => EncryptedInputBuilder.addU128 value
  | .addAddress address => EncryptedInputBuilder.addAddress T address
  | .addU256 value => EncryptedInputBuilder.addU256 value
  | .clear => EncryptedInputBuilder.clear

/-- What a call returns, and the builder after it. -/
def BuilderCall.run (call : BuilderCall) (b : EncryptedInputBuilder) :
    SdkResult Unit × EncryptedInputBuilder := ExceptT.run (call.method T) b

/-- The builder after one call after another. -/
def EncryptedInputBuilder.after (b : EncryptedInputBuilder) (calls : List BuilderCall) :
    EncryptedInputBuilder := calls.foldl (fun b call => (call.run T b).2) b

end Fhevm.Sdk
