import Fhevm.Foundation.HashMap
import Fhevm.Foundation.Panics
import Fhevm.Foundation.Utf8
import Fhevm.Sdk.Eip712

/-!
# Results of public decryptions

The SDK reads the clear values out of the result of a public decryption. The types of the values are
read off the texts of their handles.

## Main definitions

* `JsonValue` — a clear value as an application gets it.
* `extractTypeFromHandle` — the type in the text of a handle.
* `deserializeDecryptedResult` — the values of all handles.
-/

namespace Fhevm.Sdk

open Foundation

/-- The JSON values of results. -/
inductive JsonValue
  | bool (b : Bool)
  | string (text : String)
deriving DecidableEq, Repr

abbrev DecryptedResults := HashMap String JsonValue

abbrev Deserialized (α : Type) := Panics SdkError α

def DUMMY_REQUEST_ID_SIZE : Nat := 32

def WORD_SIZE : Nat := 32

def ADDRESS_BYTE_OFFSET : Nat := 12

def BOOL_VALUE_OFFSET : Nat := 31

/-! ## Types -/

/-- A plus sign may come before the digits of a number. -/
def withoutPlus : List Char → List Char
  | '+' :: digit :: digits => digit :: digits
  | text => text

/-- `u8::from_str_radix(text, 16)` -/
def fromStrRadix16 (text : List Char) : Except String UInt8 := do
  require (text ≠ []) "cannot parse integer from empty string"
  let numbers ← ((withoutPlus text).mapM hexDigit).elim (.error "invalid digit found in string") .ok
  let value := numbers.foldl (fun value n => 16 * value + n) 0
  require (value < 256) "number too large to fit in target type"
  return UInt8.ofNat value

/-- The text of a handle without `0x` or `0X`. -/
def withoutPrefix (handle : String) : List Char :=
  match handle.toList with
  | '0' :: 'x' :: rest => rest
  | '0' :: 'X' :: rest => rest
  | text => text

/-- The offsets are those of bytes, and a slice panics at an offset inside a character. -/
def extractTypeFromHandle (handle : String) : Deserialized UInt8 := do
  let handle := withoutPrefix handle
  let len := utf8Len handle
  if len < 4 then
    throw (.decryptionError
      ("Handle too short to extract type (need at least 4 hex chars, got " ++ toString len ++ ")"))
  let hexPair ← .ofOption (sliceBytes handle (len - 4) (len - 2))
  .ofExcept ((fromStrRadix16 hexPair).mapError fun e =>
    .decryptionError ("Invalid handle type hex '" ++ String.ofList hexPair ++ "': " ++ e))

def extractTypesFromHandles (handles : List String) : Deserialized (List UInt8) :=
  handles.mapM extractTypeFromHandle

/-! ## Values -/

/-- `&bytes[start..stop]` -/
def subslice (bytes : Bytes) (start stop : Nat) : Option Bytes :=
  if start ≤ stop ∧ stop ≤ bytes.length then some ((bytes.drop start).take (stop - start)) else none

def decodeBool (valueBytes : Bytes) : Deserialized JsonValue := do
  if valueBytes.length ≠ WORD_SIZE then
    throw (.decryptionError "Invalid value bytes length for bool")
  let byte ← .ofOption valueBytes[BOOL_VALUE_OFFSET]?
  return .bool (byte == 1)

/-- `U256::from_be_slice` panics on more than 32 bytes. -/
def decodeNumeric (valueBytes : Bytes) : Deserialized JsonValue := do
  let value ← .ofOption
    (if valueBytes.length ≤ 32 then some (BigEndian.decode valueBytes) else none)
  return .string (toString value)

def decodeAddress (valueBytes : Bytes) : Deserialized JsonValue := do
  if valueBytes.length ≠ WORD_SIZE then
    throw (.decryptionError "Invalid value bytes length for address")
  let addrBytes ← .ofOption (subslice valueBytes ADDRESS_BYTE_OFFSET WORD_SIZE)
  return .string ("0x" ++ String.ofList (hexEncode addrBytes))

def decodeValueByType (typeDisc : UInt8) (valueBytes : Bytes) : Deserialized JsonValue :=
  if typeDisc = 0 then decodeBool valueBytes
  else if typeDisc ∈ [2, 3, 4, 5, 6, 8] then decodeNumeric valueBytes
  else if typeDisc = 7 then decodeAddress valueBytes
  else throw (.decryptionError ("Unknown type discriminant: " ++ toString typeDisc.toNat))

/-! ## Results -/

/-- The result between a dummy request id and a dummy length. -/
def createRestoredEncoded (decryptedBytes : Bytes) : Bytes :=
  List.replicate DUMMY_REQUEST_ID_SIZE 0 ++ decryptedBytes ++
    List.replicate DUMMY_REQUEST_ID_SIZE 0

def decodeSingleValue (handles : List String) (typesList : List UInt8) (restoredEncoded : Bytes) :
    Deserialized DecryptedResults := do
  let requiredSize := DUMMY_REQUEST_ID_SIZE + WORD_SIZE
  if restoredEncoded.length < requiredSize then
    throw (.decryptionError ("Insufficient data for single value decoding: need " ++
      toString requiredSize ++ " bytes, got " ++ toString restoredEncoded.length))
  let handle ← .ofOption handles[0]?
  let typeDisc ← .ofOption typesList[0]?
  let valueBytes ← .ofOption (subslice restoredEncoded DUMMY_REQUEST_ID_SIZE
    (DUMMY_REQUEST_ID_SIZE + WORD_SIZE))
  let value ← decodeValueByType typeDisc valueBytes
  return HashMap.empty.insert handle value

/-- The loop over the handles, from an index and an offset on. -/
def decodeValuesFrom (typesList : List UInt8) (restoredEncoded : Bytes) :
    List String → Nat → Nat → DecryptedResults → Deserialized DecryptedResults
  | [], _, _, results => return results
  | handle :: handles, i, offset, results => do
    if offset + WORD_SIZE > restoredEncoded.length then
      throw (.decryptionError ("Not enough data for handle " ++ toString i ++ " (need " ++
        toString (offset + WORD_SIZE) ++ " bytes, have " ++ toString restoredEncoded.length ++ ")"))
    let typeDisc ← .ofOption typesList[i]?
    let valueBytes ← .ofOption (subslice restoredEncoded offset (offset + WORD_SIZE))
    let value ← decodeValueByType typeDisc valueBytes
    decodeValuesFrom typesList restoredEncoded handles (i + 1) (offset + WORD_SIZE)
      (results.insert handle value)

def decodeMultipleValues (handles : List String) (typesList : List UInt8)
    (restoredEncoded : Bytes) : Deserialized DecryptedResults :=
  decodeValuesFrom typesList restoredEncoded handles 0 DUMMY_REQUEST_ID_SIZE .empty

def deserializeDecryptedResult (handles : List String) (decryptedResult : String) :
    Deserialized DecryptedResults := do
  let typesList ← extractTypesFromHandles handles
  let decryptedBytes ← .ofExcept (parseHexString decryptedResult "decrypted result")
  let requiredBytes := handles.length * WORD_SIZE
  if decryptedBytes.length < requiredBytes then
    throw (.decryptionError ("Insufficient decrypted data: need at least " ++
      toString requiredBytes ++ " bytes for " ++ toString handles.length ++ " values, got " ++
      toString decryptedBytes.length))
  let restoredEncoded := createRestoredEncoded decryptedBytes
  if handles.length = 1 then
    decodeSingleValue handles typesList restoredEncoded
  else
    decodeMultipleValues handles typesList restoredEncoded

end Fhevm.Sdk
