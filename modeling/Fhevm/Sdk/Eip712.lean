import Fhevm.Gateway.Eip712

/-!
# Signatures of the SDK

The Rust SDK lets an application sign the permission for a user decryption. A builder
collects the data, and the digest is that of a typed struct.

## Main definitions

* `SolStruct` — a typed struct, its type and its hash.
* `Eip712SignatureBuilder` — the builder, with its setters and defaults.
* `Eip712SignatureBuilder.generateHash` — the digest that is signed.
-/

namespace Fhevm.Sdk

open Foundation Gateway Host

/-! ## Typed structs -/

/-- A value of a typed struct. -/
inductive SolValue
  | bytes (b : Bytes)
  | string (text : String)
  | uint256 (n : Nat)
  | address (a : Address)
  | addresses (as : List Address)
  | bytes32s (words : List Bytes32)

def SolValue.typeName : SolValue → String
  | .bytes _ => "bytes"
  | .string _ => "string"
  | .uint256 _ => "uint256"
  | .address _ => "address"
  | .addresses _ => "address[]"
  | .bytes32s _ => "bytes32[]"

/-- A struct as `sol!` declares it: a name, and named values. -/
structure SolStruct where
  name : String
  fields : List (String × SolValue)

/-- The text of a type: its name, and the types and names of its fields. -/
def encodeType (name : String) (fields : List (String × String)) : String :=
  name ++ "(" ++ ",".intercalate (fields.map fun f => f.1 ++ " " ++ f.2) ++ ")"

def SolStruct.encodeType (s : SolStruct) : String :=
  Sdk.encodeType s.name (s.fields.map fun f => (f.2.typeName, f.1))

section Hashes

variable (keccak256 : Bytes → Bytes32)

/-- Values of variable length are hashed. -/
def SolValue.encodeData : SolValue → Bytes
  | .bytes b => wordBytes (keccak256 b)
  | .string text => wordBytes (keccak256 (textBytes text))
  | .uint256 n => uintBytes n
  | .address a => paddedAddress a
  | .addresses as => wordBytes (keccak256 (as.flatMap paddedAddress))
  | .bytes32s words => wordBytes (keccak256 (words.flatMap wordBytes))

def SolStruct.hashStruct (s : SolStruct) : Bytes32 :=
  keccak256 (wordBytes (keccak256 (textBytes s.encodeType)) ++
    s.fields.flatMap fun f => f.2.encodeData keccak256)

/-- `eip712_signing_hash`: the digest of a struct under a domain, which is a struct itself. -/
def SolStruct.eip712SigningHash (s domain : SolStruct) : Bytes32 :=
  toTypedDataHash keccak256 (domain.hashStruct keccak256) (s.hashStruct keccak256)

/-- A domain with the four usual fields is hashed as the gateway contracts hash it. -/
theorem hashStruct_domain (name version : String) (chainId : Nat) (verifyingContract : Address) :
    SolStruct.hashStruct keccak256 ⟨"EIP712Domain", [("name", .string name),
      ("version", .string version), ("chainId", .uint256 chainId),
      ("verifyingContract", .address verifyingContract)]⟩ =
      domainSeparator keccak256 name version chainId verifyingContract := by
  have htype : encodeType "EIP712Domain" [("string", "name"), ("string", "version"),
      ("uint256", "chainId"), ("address", "verifyingContract")] = DOMAIN_TYPE := by
    decide +kernel
  simp [SolStruct.hashStruct, SolStruct.encodeType, SolValue.typeName, htype, domainSeparator,
    domainEncoding, SolValue.encodeData]

end Hashes

/-! ## Hexadecimal text -/

inductive SdkError
  | invalidParams (text : String)
  | invalidHex (fieldName : String)
  | decryptionError (text : String)
  | encryptionError (text : String)
deriving DecidableEq, Repr

abbrev SdkResult := Except SdkError

def hexDigits : List Char := "0123456789abcdef".toList

/-- Letters of both cases are digits. -/
def hexDigit (c : Char) : Option Nat := hexDigits.findIdx? (· == c.toLower)

/-- `hex::decode` -/
def hexDecode : List Char → Option Bytes
  | [] => some []
  | [_] => none
  | high :: low :: rest =>
    match hexDigit high, hexDigit low, hexDecode rest with
    | some high, some low, some bytes => some (UInt8.ofNat (16 * high + low) :: bytes)
    | _, _, _ => none

/-- The digits of bytes, in small letters. -/
def hexEncode (bytes : Bytes) : List Char :=
  bytes.flatMap fun b => [hexDigits.getD (b.toNat / 16) '0', hexDigits.getD (b.toNat % 16) '0']

/-- The prefix `0x` may be left out. -/
def parseHexString (hexStr fieldName : String) : SdkResult Bytes :=
  let cleaned :=
    match hexStr.toList with
    | '0' :: 'x' :: rest => rest
    | text => text
  match hexDecode cleaned with
  | some bytes => .ok bytes
  | none => .error (.invalidHex fieldName)

def validateAddress (a : Address) : SdkResult Unit :=
  require (a ≠ 0) (.invalidParams "Zero address is not allowed")

/-! ## The text of an address -/

/-- `Address::to_string`: a letter is a capital where the hash of the digits says so. -/
def addressText (keccak256 : Bytes → Bytes32) (a : Address) : String :=
  let digits := hexEncode (addressBytes a)
  let hash := hexEncode (wordBytes (keccak256 (digits.map fun c => UInt8.ofNat c.toNat)))
  String.ofList ('0' :: 'x' ::
    List.zipWith (fun c h => if (hexDigit h).getD 0 < 8 then c else c.toUpper) digits hash)

theorem hexDigit_getD {n : Nat} (hn : n < 16) : hexDigit (hexDigits.getD n '0') = some n := by
  interval_cases n <;> rfl

/-- Encoded bytes are decoded again. -/
theorem hexDecode_hexEncode (bytes : Bytes) : hexDecode (hexEncode bytes) = some bytes := by
  induction bytes with
  | nil => rfl
  | cons b bytes ih =>
    have hb : b.toNat < 256 := b.toNat_lt
    have hsplit : 16 * (b.toNat / 16) + b.toNat % 16 = b.toNat := by omega
    change hexDecode (_ :: _ :: hexEncode bytes) = _
    rw [hexDecode, hexDigit_getD (by omega), hexDigit_getD (by omega), ih]
    simp [hsplit]

theorem length_hexEncode (bytes : Bytes) : (hexEncode bytes).length = 2 * bytes.length := by
  simp [hexEncode, List.length_flatMap, Nat.mul_comm]

theorem mem_hexDigits_of_hexEncode {bytes : Bytes} {c : Char} (hc : c ∈ hexEncode bytes) :
    c ∈ hexDigits := by
  obtain ⟨b, -, hc⟩ := List.mem_flatMap.mp hc
  have hb : b.toNat < 256 := b.toNat_lt
  have hdigit : ∀ n < 16, hexDigits.getD n '0' ∈ hexDigits := by decide
  simp only [List.mem_cons, List.not_mem_nil, or_false] at hc
  obtain rfl | rfl := hc
  · exact hdigit _ (by omega)
  · exact hdigit _ (by omega)

theorem hexEncode_zeros (n : Nat) :
    hexEncode (List.replicate n 0) = List.replicate (2 * n) '0' := by
  induction n with
  | zero => rfl
  | succ n ih =>
    change '0' :: '0' :: hexEncode (List.replicate n 0) = List.replicate (2 * n + 2) '0'
    rw [ih]
    rfl

/-- Digits are parsed with and without a mark. -/
theorem parseHexString_of_digits {text : String} {digits : List Char} {bytes : Bytes}
    (htext : text.toList = digits ∨ text.toList = '0' :: 'x' :: digits)
    (hdigits : hexDecode digits = some bytes) (fieldName : String) :
    parseHexString text fieldName = .ok bytes := by
  have hmark : ∀ rest, digits ≠ '0' :: 'x' :: rest := by
    have hx : hexDigit 'x' = none := rfl
    rintro rest rfl
    simp [hexDecode, hx] at hdigits
  obtain htext | htext := htext
  · simp only [parseHexString, htext, hdigits]
  · simp only [parseHexString, htext, hdigits]

/-- Bytes that are written as digits are parsed again. -/
theorem parseHexString_hexEncode (bytes : Bytes) (fieldName : String) :
    parseHexString (String.ofList (hexEncode bytes)) fieldName = .ok bytes :=
  parseHexString_of_digits (.inl String.toList_ofList) (hexDecode_hexEncode bytes) fieldName

theorem toLower_hexDigits {c : Char} (hc : c ∈ hexDigits) :
    c.toLower = c ∧ c.toUpper.toLower = c := by
  have hdigits : hexDigits = ['0', '1', '2', '3', '4', '5', '6', '7', '8', '9', 'a', 'b', 'c', 'd',
      'e', 'f'] := rfl
  rw [hdigits] at hc
  fin_cases hc <;> exact ⟨rfl, rfl⟩

/-- In small letters, the text of an address is its digits. -/
theorem toLower_addressText (keccak256 : Bytes → Bytes32) (a : Address) :
    ((addressText keccak256 a).toList.map Char.toLower) =
      '0' :: 'x' :: hexEncode (addressBytes a) := by
  have hzip : ∀ (digits hash : List Char), (∀ c ∈ digits, c ∈ hexDigits) →
      digits.length ≤ hash.length → (List.zipWith (fun c h =>
        if (hexDigit h).getD 0 < 8 then c else c.toUpper) digits hash).map Char.toLower = digits := by
    intro digits
    induction digits with
    | nil => simp
    | cons c digits ih =>
      intro hash hdigits hlength
      cases hash with
      | nil => simp at hlength
      | cons h hash =>
        obtain ⟨hlower, hupper⟩ := toLower_hexDigits (hdigits c List.mem_cons_self)
        rw [List.zipWith_cons_cons, List.map_cons,
          ih hash (fun c hc => hdigits c (List.mem_cons_of_mem _ hc)) (by simpa using hlength)]
        split_ifs <;> simp [hlower, hupper]
  have hlength : (hexEncode (addressBytes a)).length ≤ (hexEncode (wordBytes (keccak256
      ((hexEncode (addressBytes a)).map fun c => UInt8.ofNat c.toNat)))).length := by
    simp [length_hexEncode, addressBytes]
  rw [addressText, String.toList_ofList, List.map_cons, List.map_cons,
    hzip _ _ (fun c => mem_hexDigits_of_hexEncode) hlength]
  rfl

/-- The text determines the address, in small letters as well. -/
theorem addressText_injective (keccak256 : Bytes → Bytes32) {a b : Address}
    (h : (addressText keccak256 a).toLower = (addressText keccak256 b).toLower) : a = b := by
  have hlists := congrArg String.toList h
  rw [String.toLower, String.toLower, String.toList_map, String.toList_map, toLower_addressText,
    toLower_addressText] at hlists
  have hdigits : hexEncode (addressBytes a) = hexEncode (addressBytes b) := by simpa using hlists
  have hbytes : addressBytes a = addressBytes b :=
    Option.some.inj (by rw [← hexDecode_hexEncode, hdigits, hexDecode_hexEncode])
  have hlt : ∀ c : Address, c.toNat < 256 ^ 20 := fun c => c.isLt.trans_eq (by norm_num)
  exact BitVec.eq_of_toNat_eq (BigEndian.encode_injective (hlt a) (hlt b) hbytes)

/-! ## The builder -/

structure Eip712Config where
  gatewayChainId : UInt64
  verifyingContract : Address
  contractsChainId : UInt64
deriving DecidableEq, Repr

structure Eip712SignatureBuilder where
  publicKey : Option String
  contractAddresses : List Address
  startTimestamp : Option UInt64
  durationDays : Option UInt64
  delegatedAccount : Option Address
  extraData : Bytes
  config : Eip712Config
deriving DecidableEq, Repr

/-- The struct that the gateway expects to be signed. -/
def userDecryptRequestVerification (publicKey : Bytes) (contractAddresses : List Address)
    (startTimestamp durationDays : UInt64) (extraData : Bytes) : SolStruct where
  name := "UserDecryptRequestVerification"
  fields := [("publicKey", .bytes publicKey), ("contractAddresses", .addresses contractAddresses),
    ("startTimestamp", .uint256 startTimestamp.toNat), ("durationDays", .uint256 durationDays.toNat),
    ("extraData", .bytes extraData)]

def delegatedUserDecryptRequestVerification (publicKey : Bytes) (contractAddresses : List Address)
    (delegatorAddress : Address) (startTimestamp durationDays : UInt64) (extraData : Bytes) :
    SolStruct where
  name := "DelegatedUserDecryptRequestVerification"
  fields := [("publicKey", .bytes publicKey), ("contractAddresses", .addresses contractAddresses),
    ("delegatorAddress", .address delegatorAddress),
    ("startTimestamp", .uint256 startTimestamp.toNat), ("durationDays", .uint256 durationDays.toNat),
    ("extraData", .bytes extraData)]

namespace Eip712Config

/-- `eip712_domain!` -/
def domain (config : Eip712Config) : SolStruct where
  name := "EIP712Domain"
  fields := [("name", .string "Decryption"), ("version", .string "1"),
    ("chainId", .uint256 config.contractsChainId.toNat),
    ("verifyingContract", .address config.verifyingContract)]

end Eip712Config

namespace Eip712SignatureBuilder

def new (config : Eip712Config) : Eip712SignatureBuilder where
  publicKey := none
  contractAddresses := []
  startTimestamp := none
  durationDays := none
  delegatedAccount := none
  extraData := [0]
  config := config

variable (b : Eip712SignatureBuilder)

def withPublicKey (key : String) : Eip712SignatureBuilder := { b with publicKey := some key }

def withContract (address : Address) : SdkResult Eip712SignatureBuilder := do
  validateAddress address
  return { b with contractAddresses := b.contractAddresses ++ [address] }

def withContracts (addresses : List Address) : SdkResult Eip712SignatureBuilder :=
  addresses.foldlM withContract b

def withContractAddressesVec (addresses : List Address) : Eip712SignatureBuilder :=
  { b with contractAddresses := addresses }

def withContractsCleared : Eip712SignatureBuilder := { b with contractAddresses := [] }

def withValidityPeriod (startTimestamp durationDays : UInt64) : Eip712SignatureBuilder :=
  { b with startTimestamp := some startTimestamp, durationDays := some durationDays }

/-- The duration defaults to 30 days. -/
def withStartTimestamp (timestamp : UInt64) : Eip712SignatureBuilder :=
  { b with
    startTimestamp := some timestamp
    durationDays := some (b.durationDays.getD 30) }

def withStartNow (now : UInt64) : Eip712SignatureBuilder := { b with startTimestamp := some now }

/-- The start defaults to now. -/
def withDurationDays (now days : UInt64) : Eip712SignatureBuilder :=
  { b with
    durationDays := some days
    startTimestamp := some (b.startTimestamp.getD now) }

def withExtraData (extraData : Bytes) : Eip712SignatureBuilder := { b with extraData }

def withDelegatedAccount (account : Address) : SdkResult Eip712SignatureBuilder := do
  validateAddress account
  return { b with delegatedAccount := some account }

def validate : SdkResult Unit := do
  require (b.publicKey ≠ none)
    (.invalidParams "Public key is required. Call .with_public_key() first.")
  require (b.contractAddresses ≠ [])
    (.invalidParams "At least one contract address is required. Call .with_contract() first.")
  let durationDays := b.durationDays.getD 30
  require (¬ (durationDays = 0 ∨ durationDays > 365))
    (.invalidParams "Duration must be between 1 and 365 days")

section Hashes

variable (keccak256 : Bytes → Bytes32)

def generateHashInternal (publicKeyBytes : Bytes) (startTimestamp durationDays : UInt64) :
    Bytes32 :=
  let message :=
    match b.delegatedAccount with
    | some delegatedAccount =>
      delegatedUserDecryptRequestVerification publicKeyBytes b.contractAddresses delegatedAccount
        startTimestamp durationDays b.extraData
    | none =>
      userDecryptRequestVerification publicKeyBytes b.contractAddresses startTimestamp
        durationDays b.extraData
  message.eip712SigningHash keccak256 b.config.domain

/-- `generate_hash`, and the hash that `build` signs. -/
def generateHash (now : UInt64) : SdkResult Bytes32 := do
  b.validate
  let publicKeyBytes ← parseHexString (b.publicKey.getD "") "public key"
  return b.generateHashInternal keccak256 publicKeyBytes (b.startTimestamp.getD now)
    (b.durationDays.getD 30)

end Hashes

end Eip712SignatureBuilder

end Fhevm.Sdk
