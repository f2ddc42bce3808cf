import Fhevm.Common.Evm

/-!
# Handles of the host contracts

A handle is a word of 32 bytes: 21 bytes of a hash, an index, the chain id, a type
and a version. One function writes this metadata and several read parts of it back.

## Main definitions

* `FheType` — the types that Solidity knows, with their numbers.
* `appendMetadataToPrehandle` — the encoder.
* `typeOf`, `extractFheType`, `extractChainId`, `recoveredChainId`, `indexHandle` — the decoders.
-/

namespace Fhevm.Host

open Foundation

/-! ## Types -/

/-- The FHE types of the Solidity library, in the order of their numbers. -/
inductive FheType
  | bool | uint4 | uint8 | uint16 | uint32 | uint64 | uint128 | uint160 | uint256 | uint512
  | uint1024 | uint2048 | uint2 | uint6 | uint10 | uint12 | uint14 | int2 | int4 | int6 | int8
  | int10 | int12 | int14 | int16 | int32 | int64 | int128 | int160 | int256 | asciiString
  | int512 | int1024 | int2048 | uint24 | uint40 | uint48 | uint56 | uint72 | uint80 | uint88
  | uint96 | uint104 | uint112 | uint120 | uint136 | uint144 | uint152 | uint168 | uint176
  | uint184 | uint192 | uint200 | uint208 | uint216 | uint224 | uint232 | uint240 | uint248
  | int24 | int40 | int48 | int56 | int72 | int80 | int88 | int96 | int104 | int112 | int120
  | int136 | int144 | int152 | int168 | int176 | int184 | int192 | int200 | int208 | int216
  | int224 | int232 | int240 | int248
deriving DecidableEq, Repr

namespace FheType

/-- All types in the order of the enumeration. -/
def all : List FheType :=
    [.bool, .uint4, .uint8, .uint16, .uint32, .uint64, .uint128, .uint160, .uint256, .uint512,
    .uint1024, .uint2048, .uint2, .uint6, .uint10, .uint12, .uint14, .int2, .int4, .int6, .int8,
    .int10, .int12, .int14, .int16, .int32, .int64, .int128, .int160, .int256, .asciiString,
    .int512, .int1024, .int2048, .uint24, .uint40, .uint48, .uint56, .uint72, .uint80, .uint88,
    .uint96, .uint104, .uint112, .uint120, .uint136, .uint144, .uint152, .uint168, .uint176,
    .uint184, .uint192, .uint200, .uint208, .uint216, .uint224, .uint232, .uint240, .uint248,
    .int24, .int40, .int48, .int56, .int72, .int80, .int88, .int96, .int104, .int112, .int120,
    .int136, .int144, .int152, .int168, .int176, .int184, .int192, .int200, .int208, .int216,
    .int224, .int232, .int240, .int248]

/-- The number of a type. -/
def toNat (t : FheType) : Nat := t.ctorIdx

/-- `FheType(n)`, which is a panic above the last type. -/
def ofNat? (n : Nat) : Option FheType := all[n]?

theorem ofNat?_toNat (t : FheType) : ofNat? t.toNat = some t := by
  cases t <;> rfl

theorem toNat_injective : Function.Injective toNat := by
  intro s t h
  have := congrArg ofNat? h
  simpa [ofNat?_toNat] using this

theorem toNat_lt (t : FheType) : t.toNat < 84 := by
  cases t <;> decide

theorem ofNat?_eq_some {n : Nat} {t : FheType} : ofNat? n = some t ↔ t.toNat = n := by
  constructor
  · intro h
    obtain ⟨hn, rfl⟩ := List.getElem?_eq_some_iff.mp h
    have hall : ∀ m (hm : m < all.length), (all[m]).toNat = m := by decide
    exact hall n hn
  · rintro rfl
    exact ofNat?_toNat t

end FheType

/-! ## The layout of a handle -/

def HANDLE_VERSION : BitVec 8 := 0

/-- `w[i]`, the byte at an index counted from the left. -/
def byteAt (w : Bytes32) (i : Nat) : BitVec 8 := w.extractLsb' (8 * (31 - i)) 8

/-- The type byte of a handle; a number that is no type is a panic. -/
def typeOf (handle : Bytes32) : Option FheType := FheType.ofNat? (byteAt handle 30).toNat

def appendMetadataToPrehandle (chainid : BitVec 256) (prehandle : Bytes32) (handleType : FheType) :
    Bytes32 :=
  -- clear bytes 21 to 31
  let result := prehandle &&&
    0xffffffffffffffffffffffffffffffffffffffffff0000000000000000000000#256
  -- the new handle comes from a computation
  let result := result ||| ((0xff#256) <<< 80)
  let result := result ||| (((chainid.setWidth 64).setWidth 256) <<< 16)
  let result := result ||| (((BitVec.ofNat 8 handleType.toNat).setWidth 256) <<< 8)
  result ||| HANDLE_VERSION.setWidth 256

/-- `HandleOps.extractChainId` of the gateway. -/
def extractChainId (handle : Bytes32) : BitVec 256 := (handle >>> 16) &&& 0xffffffffffffffff#256

/-- `HandleOps.extractFheType` of the gateway, which reverts on a number that is no type. -/
def extractFheType (handle : Bytes32) : Option FheType :=
  let fheTypeUint8 : BitVec 8 := (((handle <<< 240) >>> 248).setWidth 8)
  FheType.ofNat? fheTypeUint8.toNat

/-- The chain id that the input verifier reads of an input handle. -/
def recoveredChainId (inputHandle : Bytes32) : BitVec 64 :=
  ((inputHandle &&& 0xffffffffffffffffffff#256) >>> 16).setWidth 64

/-- The index that the input verifier reads of an input handle. -/
def indexHandle (inputHandle : Bytes32) : BitVec 256 :=
  (inputHandle &&& 0xff00000000000000000000#256) >>> 80

/-! ## Reading back what was written -/

/-- The bits that the masks of the encoder and of the decoders keep. -/
theorem getLsbD_masks : ∀ i : Fin 256,
    (0xffffffffffffffffffffffffffffffffffffffffff0000000000000000000000#256).getLsbD i =
        decide (88 ≤ i.val) ∧
      (0xff#256).getLsbD i = decide (i.val < 8) ∧
      (0xffffffffffffffff#256).getLsbD i = decide (i.val < 64) ∧
      (0xffffffffffffffffffff#256).getLsbD i = decide (i.val < 80) ∧
      (0xff00000000000000000000#256).getLsbD i = decide (80 ≤ i.val ∧ i.val < 88) := by
  decide +kernel

section Append

variable (chainid : BitVec 256) (prehandle : Bytes32) (handleType : FheType)

theorem getLsbD_prehandleMask {i : Nat} (hi : i < 256) :
    (0xffffffffffffffffffffffffffffffffffffffffff0000000000000000000000#256).getLsbD i =
      decide (88 ≤ i) := (getLsbD_masks ⟨i, hi⟩).1

theorem getLsbD_indexByte (i : Nat) : (0xff#256).getLsbD i = decide (i < 8) := by
  by_cases hi : i < 256
  · exact (getLsbD_masks ⟨i, hi⟩).2.1
  · rw [BitVec.getLsbD_of_ge _ _ (by omega)]
    simp; omega

/-- The bits of an encoded handle, from the right: version, type, chain id, index, hash. -/
theorem getLsbD_appendMetadataToPrehandle {i : Nat} (hi : i < 256) :
    (appendMetadataToPrehandle chainid prehandle handleType).getLsbD i =
      if i < 8 then false
      else if i < 16 then (BitVec.ofNat 8 handleType.toNat).getLsbD (i - 8)
      else if i < 80 then chainid.getLsbD (i - 16)
      else if i < 88 then true
      else prehandle.getLsbD i := by
  simp only [appendMetadataToPrehandle, BitVec.getLsbD_or, BitVec.getLsbD_and,
    BitVec.getLsbD_shiftLeft, BitVec.getLsbD_setWidth, HANDLE_VERSION, getLsbD_prehandleMask hi,
    getLsbD_indexByte]
  split_ifs
  · have : ¬ 88 ≤ i := by omega
    have h2 : i < 80 := by omega
    have h3 : i < 16 := by omega
    simp [*]
  · have : ¬ 88 ≤ i := by omega
    have h2 : i < 80 := by omega
    have h3 : i - 8 < 256 := by omega
    simp [*]
  · have : ¬ 88 ≤ i := by omega
    have h2 : BitVec.getLsbD (BitVec.ofNat 8 handleType.toNat) (i - 8) = false :=
      BitVec.getLsbD_of_ge _ _ (by omega)
    have h3 : i - 16 < 64 := by omega
    simp [*]
    omega
  · have : ¬ 88 ≤ i := by omega
    have h2 : BitVec.getLsbD (BitVec.ofNat 8 handleType.toNat) (i - 8) = false :=
      BitVec.getLsbD_of_ge _ _ (by omega)
    have h3 : ¬ i - 16 < 64 := by omega
    have h4 : i - 80 < 8 := by omega
    simp [*]
  · have : 88 ≤ i := by omega
    have h2 : BitVec.getLsbD (BitVec.ofNat 8 handleType.toNat) (i - 8) = false :=
      BitVec.getLsbD_of_ge _ _ (by omega)
    have h3 : ¬ i - 16 < 64 := by omega
    have h4 : ¬ i - 80 < 8 := by omega
    simp [*]

/-- The hash is kept. -/
@[simp] theorem hash_appendMetadataToPrehandle :
    (appendMetadataToPrehandle chainid prehandle handleType).extractLsb' 88 168 =
      prehandle.extractLsb' 88 168 := by
  ext j hj
  have hlow : ¬ 88 + j < 8 ∧ ¬ 88 + j < 16 ∧ ¬ 88 + j < 80 ∧ ¬ 88 + j < 88 := by omega
  simp only [BitVec.getElem_extractLsb']
  rw [getLsbD_appendMetadataToPrehandle _ _ _ (by omega)]
  simp [hlow]

@[simp] theorem index_appendMetadataToPrehandle :
    (appendMetadataToPrehandle chainid prehandle handleType).extractLsb' 80 8 = 0xff#8 := by
  have hbyte : ∀ k : Fin 8, (0xff#8)[k] = true := by decide
  ext j hj
  have hlow : ¬ 80 + j < 8 ∧ ¬ 80 + j < 16 ∧ ¬ 80 + j < 80 ∧ 80 + j < 88 := by omega
  simp only [BitVec.getElem_extractLsb']
  rw [getLsbD_appendMetadataToPrehandle _ _ _ (by omega)]
  simp only [hlow, if_false, if_true]
  exact (hbyte ⟨j, hj⟩).symm

@[simp] theorem chainId_appendMetadataToPrehandle :
    (appendMetadataToPrehandle chainid prehandle handleType).extractLsb' 16 64 =
      chainid.setWidth 64 := by
  ext j hj
  have hlow : ¬ 16 + j < 8 ∧ ¬ 16 + j < 16 ∧ 16 + j < 80 := by omega
  simp only [BitVec.getElem_extractLsb', BitVec.getElem_setWidth]
  rw [getLsbD_appendMetadataToPrehandle _ _ _ (by omega)]
  simp [hlow]

@[simp] theorem type_appendMetadataToPrehandle :
    (appendMetadataToPrehandle chainid prehandle handleType).extractLsb' 8 8 =
      BitVec.ofNat 8 handleType.toNat := by
  ext j hj
  have hlow : ¬ 8 + j < 8 ∧ 8 + j < 16 := by omega
  simp only [BitVec.getElem_extractLsb']
  rw [getLsbD_appendMetadataToPrehandle _ _ _ (by omega)]
  simp [hlow, BitVec.getLsbD_eq_getElem hj]

end Append

/-! ## The decoders -/

theorem extractFheType_eq_typeOf (handle : Bytes32) : extractFheType handle = typeOf handle := by
  have hbyte : ((handle <<< 240) >>> 248).setWidth 8 = byteAt handle 30 := by
    ext j hj
    have hout : 248 + j < 256 ∧ ¬ 248 + j < 240 ∧ 248 + j - 240 = 8 * (31 - 30) + j := by omega
    simp only [byteAt, BitVec.getElem_setWidth, BitVec.getLsbD_ushiftRight,
      BitVec.getLsbD_shiftLeft, BitVec.getElem_extractLsb', hout]
    simp
  rw [extractFheType, typeOf, hbyte]

theorem extractChainId_eq (handle : Bytes32) :
    extractChainId handle = (handle.extractLsb' 16 64).setWidth 256 := by
  ext j hj
  simp only [extractChainId, BitVec.getElem_and, BitVec.getElem_ushiftRight,
    BitVec.getElem_setWidth, BitVec.getLsbD_extractLsb']
  rw [← BitVec.getLsbD_eq_getElem, (getLsbD_masks ⟨j, hj⟩).2.2.1, Bool.and_comm]

theorem recoveredChainId_eq (inputHandle : Bytes32) :
    recoveredChainId inputHandle = inputHandle.extractLsb' 16 64 := by
  ext j hj
  have hlow : 16 + j < 80 := by omega
  simp only [recoveredChainId, BitVec.getElem_setWidth, BitVec.getLsbD_ushiftRight,
    BitVec.getLsbD_and, BitVec.getElem_extractLsb', (getLsbD_masks ⟨16 + j, by omega⟩).2.2.2.1, hlow]
  simp

theorem indexHandle_eq (inputHandle : Bytes32) :
    indexHandle inputHandle = (inputHandle.extractLsb' 80 8).setWidth 256 := by
  ext j hj
  simp only [indexHandle, BitVec.getElem_ushiftRight, BitVec.getLsbD_and, BitVec.getElem_setWidth,
    BitVec.getLsbD_extractLsb']
  by_cases hk : 80 + j < 256
  · rw [(getLsbD_masks ⟨80 + j, hk⟩).2.2.2.2]
    grind
  · rw [BitVec.getLsbD_of_ge _ _ (by omega)]
    have : ¬ j < 8 := by omega
    simp [this]

/-- Every decoder reads back what the encoder wrote. -/
theorem typeOf_appendMetadataToPrehandle (chainid : BitVec 256) (prehandle : Bytes32)
    (handleType : FheType) :
    typeOf (appendMetadataToPrehandle chainid prehandle handleType) = some handleType := by
  have hlt := handleType.toNat_lt
  have hbyte : byteAt (appendMetadataToPrehandle chainid prehandle handleType) 30 =
      BitVec.ofNat 8 handleType.toNat := type_appendMetadataToPrehandle chainid prehandle handleType
  rw [typeOf, hbyte, BitVec.toNat_ofNat, Nat.mod_eq_of_lt (by omega)]
  exact FheType.ofNat?_toNat handleType

/-- A computed handle is not the zero word. -/
theorem appendMetadataToPrehandle_ne_zero (chainid : BitVec 256) (prehandle : Bytes32)
    (handleType : FheType) : appendMetadataToPrehandle chainid prehandle handleType ≠ 0 := by
  intro h
  have hindex := index_appendMetadataToPrehandle chainid prehandle handleType
  rw [h] at hindex
  exact absurd hindex (by decide)

end Fhevm.Host
