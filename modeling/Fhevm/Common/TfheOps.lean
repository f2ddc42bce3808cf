import Fhevm.Common.Types
import Fhevm.Foundation.BigEndian
import Fhevm.Foundation.Contract

/-!
# Evaluating FHE operations

The evaluator matches on the operation and on the types of its operands, cuts
scalars to the width of the ciphertext next to them, and calls the FHE library.
The library is not part of the repository, so it enters as a record of functions.

## Main definitions

* `TfheLibrary` — the operations of the FHE library.
* `scalarOperand` — the number that a scalar stands for next to a ciphertext.
* `beNumberRandomBits`, `generateRandomNumber` — random numbers below a bound.
* `performFheOperation` — the evaluator.
-/

namespace Fhevm

open Foundation

/-! ## Types -/

/-- The type with a given number. -/
def FheTypes.ofNum? : ℤ → Option FheTypes
  | 0 => some .fheBool
  | 1 => some .fheUint4
  | 2 => some .fheUint8
  | 3 => some .fheUint16
  | 4 => some .fheUint32
  | 5 => some .fheUint64
  | 6 => some .fheUint128
  | 7 => some .fheUint160
  | 8 => some .fheUint256
  | 9 => some .fheBytes64
  | 10 => some .fheBytes128
  | 11 => some .fheBytes256
  | _ => none

@[simp] theorem FheTypes.ofNum?_num (t : FheTypes) : ofNum? t.num = some t := by
  cases t <;> rfl

/-- The width of the numbers of a type. -/
def FheTypes.bits : FheTypes → ℕ
  | fheBool => 1
  | fheUint4 => 4
  | fheUint8 => 8
  | fheUint16 => 16
  | fheUint32 => 32
  | fheUint64 => 64
  | fheUint128 => 128
  | fheUint160 => 160
  | fheUint256 => 256
  | fheBytes64 => 512
  | fheBytes128 => 1024
  | fheBytes256 => 2048

/-! ## Scalars -/

def toBeU4Bit (inp : List UInt8) : ℕ := (inp.getLastD 0 &&& 0x0f).toNat

def toBeU8Bit (inp : List UInt8) : ℕ := (inp.getLastD 0).toNat

/-- Copies the bytes into an array of constant size, padding or truncating on the left. -/
def toConstantSizeArray (size : ℕ) (inp : List UInt8) : List UInt8 := BigEndian.lastBytes size inp

def toBeU16Bit (inp : List UInt8) : ℕ := BigEndian.decode (toConstantSizeArray 2 inp)

def toBeU32Bit (inp : List UInt8) : ℕ := BigEndian.decode (toConstantSizeArray 4 inp)

def toBeU64Bit (inp : List UInt8) : ℕ := BigEndian.decode (toConstantSizeArray 8 inp)

def toBeU128Bit (inp : List UInt8) : ℕ := BigEndian.decode (toConstantSizeArray 16 inp)

def toBeU160Bit (inp : List UInt8) : ℕ :=
  BigEndian.decode (toConstantSizeArray 32 (toConstantSizeArray 20 inp))

def toBeU256Bit (inp : List UInt8) : ℕ := BigEndian.decode (toConstantSizeArray 32 inp)

def toBeU512Bit (inp : List UInt8) : ℕ := BigEndian.decode (toConstantSizeArray 64 inp)

def toBeU1024Bit (inp : List UInt8) : ℕ := BigEndian.decode (toConstantSizeArray 128 inp)

def toBeU2048Bit (inp : List UInt8) : ℕ := BigEndian.decode (toConstantSizeArray 256 inp)

def arrNonZero (inp : List UInt8) : Bool := inp.any (· != 0)

/-- The clear operand next to a ciphertext of a type. -/
def scalarOperand : FheTypes → List UInt8 → ℕ
  | .fheBool, b => (arrNonZero b).toNat
  | .fheUint4, b => toBeU4Bit b
  | .fheUint8, b => toBeU8Bit b
  | .fheUint16, b => toBeU16Bit b
  | .fheUint32, b => toBeU32Bit b
  | .fheUint64, b => toBeU64Bit b
  | .fheUint128, b => toBeU128Bit b
  | .fheUint160, b => toBeU160Bit b
  | .fheUint256, b => toBeU256Bit b
  | .fheBytes64, b => toBeU512Bit b
  | .fheBytes128, b => toBeU1024Bit b
  | .fheBytes256, b => toBeU2048Bit b

/-- `as i16` on an unsigned number of 16 bits. -/
def asI16 (n : ℕ) : ℤ := if n < 2 ^ 15 then n else (n : ℤ) - 2 ^ 16

/-! ## The library -/

/-- The FHE library, whose ciphertexts are values of `R`. -/
structure TfheLibrary (R : Type) where
  binary : SupportedFheOperations → FheTypes → R → R → R
  /-- An operation with a clear right operand. -/
  binaryScalar : SupportedFheOperations → FheTypes → R → ℕ → R
  unary : SupportedFheOperations → FheTypes → R → R
  select : FheTypes → R → R → R → R
  castInto : FheTypes → FheTypes → R → R
  tryEncryptTrivial : FheTypes → ℕ → R
  /-- A random number of a type with at most the given number of bits. -/
  generateObliviousPseudoRandomBounded : FheTypes → ℕ → ℕ → R
  generateObliviousPseudoRandom : ℕ → R

/-- An error, or a panic of the thread. -/
inductive OperationFailure
  | fhevm (e : FhevmError)
  | panic
deriving DecidableEq, Repr

variable {R : Type}

abbrev OperationResult (R : Type) := Except OperationFailure (SupportedFheCiphertexts R)

/-! ## Trivial encryption -/

def trivialEncryptBeBytes (lib : TfheLibrary R) (outputType : ℤ) (inputBytes : List UInt8) :
    OperationResult R :=
  let lastByte := inputBytes.getLastD 0
  let padded (size : ℕ) := BigEndian.decode (BigEndian.lastBytes size inputBytes)
  match FheTypes.ofNum? outputType with
  | some .fheBool =>
    .ok (.enc .fheBool (lib.tryEncryptTrivial .fheBool (0 < lastByte.toNat : Bool).toNat))
  | some .fheUint4 => .ok (.enc .fheUint4 (lib.tryEncryptTrivial .fheUint4 lastByte.toNat))
  | some .fheUint8 => .ok (.enc .fheUint8 (lib.tryEncryptTrivial .fheUint8 lastByte.toNat))
  | some .fheUint16 => .ok (.enc .fheUint16 (lib.tryEncryptTrivial .fheUint16 (padded 2)))
  | some .fheUint32 => .ok (.enc .fheUint32 (lib.tryEncryptTrivial .fheUint32 (padded 4)))
  | some .fheUint64 => .ok (.enc .fheUint64 (lib.tryEncryptTrivial .fheUint64 (padded 8)))
  | some .fheUint128 => .ok (.enc .fheUint128 (lib.tryEncryptTrivial .fheUint128 (padded 16)))
  | some .fheUint160 => .ok (.enc .fheUint160 (lib.castInto .fheUint256 .fheUint160
      (lib.tryEncryptTrivial .fheUint256 (padded 32))))
  | some .fheUint256 => .ok (.enc .fheUint256 (lib.tryEncryptTrivial .fheUint256 (padded 32)))
  | some .fheBytes64 => .ok (.enc .fheBytes64 (lib.tryEncryptTrivial .fheBytes64 (padded 64)))
  | some .fheBytes128 => .ok (.enc .fheBytes128 (lib.tryEncryptTrivial .fheBytes128 (padded 128)))
  | some .fheBytes256 => .ok (.enc .fheBytes256 (lib.tryEncryptTrivial .fheBytes256 (padded 256)))
  | none => .error .panic

/-! ## Random numbers -/

/-- `leading_zeros` of a byte. -/
def leadingZeros (b : UInt8) : ℕ := 8 - Nat.size b.toNat

/-- The loop over the bytes from the last one on, which stops at the first that is not zero. -/
def randomBitsLoop : List UInt8 → ℕ → ℕ
  | [], res => res
  | i :: is, res => if i = 0 then randomBitsLoop is (res + 8) else res + (7 - leadingZeros i)

def beNumberRandomBits (inp : List UInt8) : ℕ := randomBitsLoop inp.reverse 0

/-- The bits drawn for a number of `bitCount` bits. -/
def randomBits (bitCount : ℕ) (upperBound : Option (List UInt8)) : ℕ :=
  min ((upperBound.map beNumberRandomBits).getD bitCount) bitCount

def generateRandomNumber (lib : TfheLibrary R) (theType : ℤ) (seed : ℕ)
    (upperBound : Option (List UInt8)) : OperationResult R :=
  match FheTypes.ofNum? theType with
  | some .fheBool => .ok (.enc .fheBool (lib.generateObliviousPseudoRandom seed))
  | some t => .ok (.enc t
      (lib.generateObliviousPseudoRandomBounded t seed (randomBits t.bits upperBound)))
  | none => .error .panic

/-! ## The evaluator -/

def unsupportedFheTypes (fheOperation : SupportedFheOperations)
    (inputOperands : List (SupportedFheCiphertexts R)) : OperationResult R :=
  .error (.fhevm (.unsupportedFheTypes fheOperation.name
    (inputOperands.map SupportedFheCiphertexts.typeName)))

/-- The unsigned types of at most 256 bits. -/
def uint4To256 : List FheTypes :=
  [.fheUint4, .fheUint8, .fheUint16, .fheUint32, .fheUint64, .fheUint128, .fheUint160, .fheUint256]

def uint4ToBytes256 : List FheTypes := uint4To256 ++ [.fheBytes64, .fheBytes128, .fheBytes256]

def boolToBytes256 : List FheTypes := .fheBool :: uint4ToBytes256

/-- Two ciphertexts of one of the types, or one and a scalar. -/
def performBinary (lib : TfheLibrary R) (fheOperation : SupportedFheOperations)
    (types : List FheTypes) (resultType : FheTypes → FheTypes) :
    List (SupportedFheCiphertexts R) → OperationResult R
  | [.enc s a, .enc t b] =>
    if s = t ∧ s ∈ types then .ok (.enc (resultType s) (lib.binary fheOperation s a b))
    else unsupportedFheTypes fheOperation [.enc s a, .enc t b]
  | [.enc s a, .scalar b] =>
    if s ∈ types then
      .ok (.enc (resultType s) (lib.binaryScalar fheOperation s a (scalarOperand s b)))
    else unsupportedFheTypes fheOperation [.enc s a, .scalar b]
  | [x, y] => unsupportedFheTypes fheOperation [x, y]
  | _ => .error .panic

/-- A division. The library panics when the clear divisor is zero. -/
def performDivision (lib : TfheLibrary R) (fheOperation : SupportedFheOperations) :
    List (SupportedFheCiphertexts R) → OperationResult R
  | [.enc s a, .scalar b] =>
    if s ∈ uint4To256 ∧ scalarOperand s b = 0 then .error .panic
    else performBinary lib fheOperation uint4To256 id [.enc s a, .scalar b]
  | inputOperands => performBinary lib fheOperation uint4To256 id inputOperands

def performUnary (lib : TfheLibrary R) (fheOperation : SupportedFheOperations)
    (types : List FheTypes) : List (SupportedFheCiphertexts R) → OperationResult R
  | [.enc t a] =>
    if t ∈ types then .ok (.enc t (lib.unary fheOperation t a))
    else unsupportedFheTypes fheOperation [.enc t a]
  | [x] => unsupportedFheTypes fheOperation [x]
  | _ => .error .panic

def performIfThenElse (lib : TfheLibrary R) :
    List (SupportedFheCiphertexts R) → OperationResult R
  | [.enc .fheBool flag, .enc s a, .enc t b] =>
    if s = t then .ok (.enc s (lib.select s flag a b))
    else unsupportedFheTypes .fheIfThenElse [.enc .fheBool flag, .enc s a, .enc t b]
  | [x, y, z] => unsupportedFheTypes .fheIfThenElse [x, y, z]
  | _ => .error .panic

/-- The conversion of a ciphertext. Whether a number is a boolean is a comparison with zero. -/
def performCast (lib : TfheLibrary R) : List (SupportedFheCiphertexts R) → OperationResult R
  | .enc type inp :: .scalar op :: _ =>
    let l := asI16 (toBeU16Bit op)
    if l = type.num then .ok (.enc type inp)
    else
      match FheTypes.ofNum? l with
      | some .fheBool => .ok (.enc .fheBool (lib.binaryScalar .fheGt type inp 0))
      | some out => .ok (.enc out (lib.castInto type out inp))
      | none =>
        -- the largest type has a panic where the others have an error
        if type = .fheBytes256 then .error .panic
        else .error (.fhevm (.unknownCastType SupportedFheOperations.fheCast.name l))
  | x :: y :: rest => unsupportedFheTypes .fheCast (x :: y :: rest)
  | _ => .error .panic

def performTrivialEncrypt (lib : TfheLibrary R) :
    List (SupportedFheCiphertexts R) → OperationResult R
  | .scalar inp :: .scalar op :: _ => trivialEncryptBeBytes lib (asI16 (toBeU16Bit op)) inp
  | x :: y :: rest => unsupportedFheTypes .fheTrivialEncrypt (x :: y :: rest)
  | _ => .error .panic

def performRand (lib : TfheLibrary R) : List (SupportedFheCiphertexts R) → OperationResult R
  | .scalar randCounter :: .scalar toType :: _ =>
    generateRandomNumber lib (asI16 (toBeU16Bit toType)) (toBeU128Bit randCounter) none
  | [] | [.scalar _] => .error .panic
  | inputOperands => unsupportedFheTypes .fheRand inputOperands

def performRandBounded (lib : TfheLibrary R) :
    List (SupportedFheCiphertexts R) → OperationResult R
  | .scalar randCounter :: .scalar upperBound :: .scalar toType :: _ =>
    generateRandomNumber lib (asI16 (toBeU16Bit toType)) (toBeU128Bit randCounter) (some upperBound)
  | [] | [.scalar _] | [.scalar _, .scalar _] => .error .panic
  | inputOperands => unsupportedFheTypes .fheRandBounded inputOperands

def performFheOperation (lib : TfheLibrary R) (fheOperationInt : ℤ)
    (inputOperands : List (SupportedFheCiphertexts R)) : OperationResult R :=
  match SupportedFheOperations.tryFrom fheOperationInt with
  | none => .error (.fhevm (.unknownFheOperation fheOperationInt))
  | some .fheAdd => performBinary lib .fheAdd uint4To256 id inputOperands
  | some .fheSub => performBinary lib .fheSub uint4To256 id inputOperands
  | some .fheMul => performBinary lib .fheMul uint4To256 id inputOperands
  | some .fheDiv => performDivision lib .fheDiv inputOperands
  | some .fheRem => performDivision lib .fheRem inputOperands
  | some .fheBitAnd => performBinary lib .fheBitAnd boolToBytes256 id inputOperands
  | some .fheBitOr => performBinary lib .fheBitOr boolToBytes256 id inputOperands
  | some .fheBitXor => performBinary lib .fheBitXor boolToBytes256 id inputOperands
  | some .fheShl => performBinary lib .fheShl uint4ToBytes256 id inputOperands
  | some .fheShr => performBinary lib .fheShr uint4ToBytes256 id inputOperands
  | some .fheRotl => performBinary lib .fheRotl uint4ToBytes256 id inputOperands
  | some .fheRotr => performBinary lib .fheRotr uint4ToBytes256 id inputOperands
  | some .fheEq => performBinary lib .fheEq boolToBytes256 (fun _ => .fheBool) inputOperands
  | some .fheNe => performBinary lib .fheNe boolToBytes256 (fun _ => .fheBool) inputOperands
  | some .fheGe => performBinary lib .fheGe uint4To256 (fun _ => .fheBool) inputOperands
  | some .fheGt => performBinary lib .fheGt uint4To256 (fun _ => .fheBool) inputOperands
  | some .fheLe => performBinary lib .fheLe uint4To256 (fun _ => .fheBool) inputOperands
  | some .fheLt => performBinary lib .fheLt uint4To256 (fun _ => .fheBool) inputOperands
  | some .fheMin => performBinary lib .fheMin uint4To256 id inputOperands
  | some .fheMax => performBinary lib .fheMax uint4To256 id inputOperands
  | some .fheNot => performUnary lib .fheNot boolToBytes256 inputOperands
  | some .fheNeg => performUnary lib .fheNeg uint4To256 inputOperands
  | some .fheIfThenElse => performIfThenElse lib inputOperands
  | some .fheCast => performCast lib inputOperands
  | some .fheTrivialEncrypt => performTrivialEncrypt lib inputOperands
  | some .fheRand => performRand lib inputOperands
  | some .fheRandBounded => performRandBounded lib inputOperands
  -- not implemented in the source
  | some .fheGetInputCiphertext => .error .panic

/-! ## Widths -/

theorem toBeU4Bit_eq (inp : List UInt8) : toBeU4Bit inp = BigEndian.decode inp % 2 ^ 4 := by
  induction inp using List.reverseRecOn with
  | nil => rfl
  | append_singleton bs b _ =>
    rw [toBeU4Bit, List.getLastD_concat, BigEndian.decode_concat, UInt8.toNat_and]
    have hmask : b.toNat &&& 15 = b.toNat % 2 ^ 4 := Nat.and_two_pow_sub_one_eq_mod _ 4
    simp only [UInt8.reduceToNat, hmask]
    omega

theorem toBeU8Bit_eq (inp : List UInt8) : toBeU8Bit inp = BigEndian.decode inp % 2 ^ 8 := by
  induction inp using List.reverseRecOn with
  | nil => rfl
  | append_singleton bs b _ =>
    have hb := b.toNat_lt
    rw [toBeU8Bit, List.getLastD_concat, BigEndian.decode_concat]
    omega

/-- A scalar is cut to the width of the type. -/
theorem scalarOperand_eq {t : FheTypes} (ht : t ≠ .fheBool) (inp : List UInt8) :
    scalarOperand t inp = BigEndian.decode inp % 2 ^ t.bits := by
  have hbytes : ∀ n bits, bits = 8 * n →
      BigEndian.decode (BigEndian.lastBytes n inp) = BigEndian.decode inp % 2 ^ bits := by
    intro n bits hbits
    rw [BigEndian.decode_lastBytes, hbits, pow_mul]
    norm_num
  cases t with
  | fheBool => exact absurd rfl ht
  | fheUint4 => exact toBeU4Bit_eq inp
  | fheUint8 => exact toBeU8Bit_eq inp
  | fheUint160 =>
    -- the 20 bytes are padded to a word again
    simp only [scalarOperand, toBeU160Bit, toConstantSizeArray, BigEndian.decode_lastBytes 32,
      hbytes 20 160 rfl]
    exact Nat.mod_eq_of_lt ((Nat.mod_lt _ (by positivity)).trans (by norm_num))
  | fheUint16 => exact hbytes 2 _ rfl
  | fheUint32 => exact hbytes 4 _ rfl
  | fheUint64 => exact hbytes 8 _ rfl
  | fheUint128 => exact hbytes 16 _ rfl
  | fheUint256 => exact hbytes 32 _ rfl
  | fheBytes64 => exact hbytes 64 _ rfl
  | fheBytes128 => exact hbytes 128 _ rfl
  | fheBytes256 => exact hbytes 256 _ rfl

end Fhevm
