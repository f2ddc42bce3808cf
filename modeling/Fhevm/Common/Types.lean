import Mathlib

/-!
# Handles, FHE operations and ciphertexts

The types that every coprocessor service shares. A ciphertext is a type tag
and whatever the FHE library stores under it, so the library's ciphertexts are
a type parameter `R`.

## Main definitions

* `Handle`, `getCtType` — ciphertext handles and the type byte they carry.
* `SupportedFheOperations` — the operations, with their numbers in the database.
* `SupportedFheCiphertexts` — a tagged ciphertext, or a big-endian scalar.
* `FhevmError` — the errors of operand validation and evaluation.
-/

namespace Fhevm

/-- A ciphertext handle, or a transaction id: a byte string. -/
abbrev Handle := List UInt8

def handleLen : ℕ := 32

/-! ## Ciphertext types -/

/-- The ciphertext types the coprocessor can hold. -/
inductive FheTypes
  | fheBool | fheUint4 | fheUint8 | fheUint16 | fheUint32 | fheUint64 | fheUint128
  | fheUint160 | fheUint256 | fheBytes64 | fheBytes128 | fheBytes256
deriving DecidableEq, Repr

/-- The number of a type, the same as in the Solidity library. -/
def FheTypes.num : FheTypes → ℕ
  | fheBool => 0
  | fheUint4 => 1
  | fheUint8 => 2
  | fheUint16 => 3
  | fheUint32 => 4
  | fheUint64 => 5
  | fheUint128 => 6
  | fheUint160 => 7
  | fheUint256 => 8
  | fheBytes64 => 9
  | fheBytes128 => 10
  | fheBytes256 => 11

theorem FheTypes.num_injective : Function.Injective FheTypes.num := by
  intro s t h
  cases s <;> cases t <;> first | rfl | simp [num] at h

/-- A tagged ciphertext of the FHE library, or the big-endian bytes of a scalar. -/
inductive SupportedFheCiphertexts (R : Type)
  | enc (type : FheTypes) (ct : R)
  | scalar (bytes : List UInt8)
deriving DecidableEq, Repr

namespace SupportedFheCiphertexts

variable {R : Type}

def typeNum : SupportedFheCiphertexts R → ℕ
  | enc t _ => t.num
  | scalar _ => 200

def typeName : SupportedFheCiphertexts R → String
  | enc .fheBool _ => "FheBool"
  | enc .fheUint4 _ => "FheUint4"
  | enc .fheUint8 _ => "FheUint8"
  | enc .fheUint16 _ => "FheUint16"
  | enc .fheUint32 _ => "FheUint32"
  | enc .fheUint64 _ => "FheUint64"
  | enc .fheUint128 _ => "FheUint128"
  | enc .fheUint160 _ => "FheUint160"
  | enc .fheUint256 _ => "FheUint256"
  | enc .fheBytes64 _ => "FheBytes64"
  | enc .fheBytes128 _ => "FheBytes128"
  | enc .fheBytes256 _ => "FheBytes256"
  | scalar _ => "Scalar"

end SupportedFheCiphertexts

/-! ## Operations -/

inductive SupportedFheOperations
  | fheAdd | fheSub | fheMul | fheDiv | fheRem | fheBitAnd | fheBitOr | fheBitXor
  | fheShl | fheShr | fheRotl | fheRotr | fheEq | fheNe | fheGe | fheGt | fheLe | fheLt
  | fheMin | fheMax | fheNeg | fheNot | fheCast | fheTrivialEncrypt | fheIfThenElse
  | fheRand | fheRandBounded | fheGetInputCiphertext
deriving DecidableEq, Repr

inductive FheOperationType
  | binary | unary | other
deriving DecidableEq, Repr

namespace SupportedFheOperations

/-- The number of an operation, as stored in the database and sent over the wire. -/
def toInt : SupportedFheOperations → ℤ
  | fheAdd => 0
  | fheSub => 1
  | fheMul => 2
  | fheDiv => 3
  | fheRem => 4
  | fheBitAnd => 5
  | fheBitOr => 6
  | fheBitXor => 7
  | fheShl => 8
  | fheShr => 9
  | fheRotl => 10
  | fheRotr => 11
  | fheEq => 12
  | fheNe => 13
  | fheGe => 14
  | fheGt => 15
  | fheLe => 16
  | fheLt => 17
  | fheMin => 18
  | fheMax => 19
  | fheNeg => 20
  | fheNot => 21
  | fheCast => 23
  | fheTrivialEncrypt => 24
  | fheIfThenElse => 25
  | fheRand => 26
  | fheRandBounded => 27
  | fheGetInputCiphertext => 32

/-- The operation with a given number. The protobuf enumeration `FheOperation`
has the same numbers. -/
def tryFrom : ℤ → Option SupportedFheOperations
  | 0 => some fheAdd
  | 1 => some fheSub
  | 2 => some fheMul
  | 3 => some fheDiv
  | 4 => some fheRem
  | 5 => some fheBitAnd
  | 6 => some fheBitOr
  | 7 => some fheBitXor
  | 8 => some fheShl
  | 9 => some fheShr
  | 10 => some fheRotl
  | 11 => some fheRotr
  | 12 => some fheEq
  | 13 => some fheNe
  | 14 => some fheGe
  | 15 => some fheGt
  | 16 => some fheLe
  | 17 => some fheLt
  | 18 => some fheMin
  | 19 => some fheMax
  | 20 => some fheNeg
  | 21 => some fheNot
  | 23 => some fheCast
  | 24 => some fheTrivialEncrypt
  | 25 => some fheIfThenElse
  | 26 => some fheRand
  | 27 => some fheRandBounded
  | 32 => some fheGetInputCiphertext
  | _ => none

@[simp] theorem tryFrom_toInt (op : SupportedFheOperations) : tryFrom op.toInt = some op := by
  cases op <;> rfl

/-- The `Debug` text of an operation. -/
def name : SupportedFheOperations → String
  | fheAdd => "FheAdd"
  | fheSub => "FheSub"
  | fheMul => "FheMul"
  | fheDiv => "FheDiv"
  | fheRem => "FheRem"
  | fheBitAnd => "FheBitAnd"
  | fheBitOr => "FheBitOr"
  | fheBitXor => "FheBitXor"
  | fheShl => "FheShl"
  | fheShr => "FheShr"
  | fheRotl => "FheRotl"
  | fheRotr => "FheRotr"
  | fheEq => "FheEq"
  | fheNe => "FheNe"
  | fheGe => "FheGe"
  | fheGt => "FheGt"
  | fheLe => "FheLe"
  | fheLt => "FheLt"
  | fheMin => "FheMin"
  | fheMax => "FheMax"
  | fheNeg => "FheNeg"
  | fheNot => "FheNot"
  | fheCast => "FheCast"
  | fheTrivialEncrypt => "FheTrivialEncrypt"
  | fheIfThenElse => "FheIfThenElse"
  | fheRand => "FheRand"
  | fheRandBounded => "FheRandBounded"
  | fheGetInputCiphertext => "FheGetInputCiphertext"

def opType : SupportedFheOperations → FheOperationType
  | fheAdd | fheSub | fheMul | fheDiv | fheRem | fheBitAnd | fheBitOr | fheBitXor
  | fheShl | fheShr | fheRotl | fheRotr | fheEq | fheNe | fheGe | fheGt | fheLe | fheLt
  | fheMin | fheMax => .binary
  | fheNot | fheNeg => .unary
  | fheIfThenElse | fheCast | fheTrivialEncrypt | fheRand | fheRandBounded => .other
  | fheGetInputCiphertext => .other

def doesHaveMoreThanOneScalar : SupportedFheOperations → Bool
  | fheRand | fheRandBounded | fheTrivialEncrypt => true
  | _ => false

end SupportedFheOperations

/-! ## Errors -/

inductive FhevmError
  | unknownFheOperation (operation : ℤ)
  | unknownFheType (type : ℤ)
  | deserializationError
  | reRandomisationError
  | fheOperationOnlyOneOperandCanBeScalar (fheOperation : ℤ) (fheOperationName : String)
      (scalarOperandCount maxScalarOperands : ℕ)
  | fheOperationDoesntSupportScalar (fheOperation : ℤ) (fheOperationName : String)
      (scalarRequested scalarSupported : Bool)
  | fheOperationOnlySecondOperandCanBeScalar (scalarInputIndex onlyAllowedScalarInputIndex : ℕ)
  | fheOperationScalarDivisionByZero (lhsHandle rhsValue : String) (fheOperation : ℤ)
      (fheOperationName : String)
  | unexpectedOperandCountForFheOperation (fheOperation : ℤ) (fheOperationName : String)
      (expectedOperands gotOperands : ℕ)
  | unexpectedCastOperandTypes (fheOperation : ℤ) (fheOperationName : String)
      (expectedOperatorCombination gotOperandCombination : List String)
  | unexpectedCastOperandSizeForScalarOperand (fheOperation : ℤ) (fheOperationName : String)
      (expectedScalarOperandBytes gotBytes : ℕ)
  | allInputsForTrivialEncryptionMustBeScalar (fheOperation : ℤ) (fheOperationName : String)
  | unexpectedTrivialEncryptionOperandSizeForScalarOperand (fheOperation : ℤ)
      (fheOperationName : String) (expectedScalarOperandBytes gotBytes : ℕ)
  | unexpectedRandOperandSizeForOutputType (fheOperation : ℤ) (fheOperationName : String)
      (expectedOperandBytes gotBytes : ℕ)
  | randOperationUpperBoundCannotBeZero (fheOperation : ℤ) (fheOperationName : String)
      (upperBoundValue : String)
  | randOperationInputsMustAllBeScalar (fheOperation : ℤ) (fheOperationName : String)
      (scalarOperandCount expectedScalarOperandCount : ℕ)
  | badInputs
  | missingTfheRsData
  | invalidHandle
  | unsupportedFheTypes (fheOperation : String) (inputTypes : List String)
  | unknownCastType (fheOperation : String) (typeToCastTo : ℤ)
deriving DecidableEq, Repr

/-- The type byte of a handle of the right length. -/
def getCtType (handle : Handle) : Except FhevmError ℤ :=
  if h : handle.length = handleLen then .ok (handle.get ⟨30, by rw [h]; decide⟩).toNat
  else .error .invalidHandle

end Fhevm
