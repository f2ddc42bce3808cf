import Fhevm.Common.TfheOps

/-!
# Checking the operands of FHE operations

Before an operation is scheduled its operands are checked: how many there are,
which of them are scalars, and the size of the scalars that stand for a type.

## Main definitions

* `checkFheOperandTypes` — the check of one operation.
* `validateFheType` — whether a number is a type.
-/

namespace Fhevm

open Foundation

/-! ## The source -/

def hexDigit (n : ℕ) : Char := "0123456789abcdef".toList.getD n '0'

/-- `hex::encode` with the mark of hexadecimal numbers in front. -/
def hexText (bytes : List UInt8) : String :=
  "0x" ++ String.ofList (bytes.flatMap fun b => [hexDigit (b.toNat / 16), hexDigit (b.toNat % 16)])

/-- An error of the check. -/
def operandError (e : FhevmError) : OperationFailure := .fhevm e

def validateFheType (inputType : ℤ) : Except OperationFailure Unit :=
  require (0 ≤ inputType ∧ inputType ≤ 11) (operandError (.unknownFheType inputType))

def doesFheOperationSupportScalar (op : SupportedFheOperations) : Bool :=
  match op.opType with
  | .binary => true
  | .unary => false
  | .other => op == .fheCast

/-- The positions of the scalar operands. -/
def scalarOperands (isInputHandleScalar : List Bool) : List ℕ :=
  (List.range isInputHandleScalar.length).filter fun i => isInputHandleScalar.getD i false

/-- The check of the scalar operands of an operation that takes at most one. -/
def checkScalarOperands (fheOperation : ℤ) (fheOp : SupportedFheOperations) :
    List ℕ → Except OperationFailure Unit
  | [] => .ok ()
  | [scalarInputIndex] => do
    require (doesFheOperationSupportScalar fheOp = true)
      (operandError (.fheOperationDoesntSupportScalar fheOperation fheOp.name true false))
    require (scalarInputIndex = 1)
      (operandError (.fheOperationOnlySecondOperandCanBeScalar scalarInputIndex 1))
  | scalarOperands => .error (operandError (.fheOperationOnlyOneOperandCanBeScalar fheOperation
      fheOp.name scalarOperands.length 1))

def checkOperandCount (fheOperation : ℤ) (fheOp : SupportedFheOperations)
    (expectedOperands gotOperands : ℕ) : Except OperationFailure Unit :=
  require (gotOperands = expectedOperands) (operandError (.unexpectedOperandCountForFheOperation
    fheOperation fheOp.name expectedOperands gotOperands))

/-- The name of an operand in the errors about conversions. -/
def operandKind (isScalar : Bool) : String := if isScalar then "scalar" else "handle"

def checkBinary (fheOperation : ℤ) (fheOp : SupportedFheOperations)
    (inputHandles : List (List UInt8)) (isScalar : Bool) : Except OperationFailure Unit := do
  checkOperandCount fheOperation fheOp 2 inputHandles.length
  -- special case for div operation, rhs for scalar must not be zero
  let lhs := inputHandles.getD 0 []
  let rhs := inputHandles.getD 1 []
  require (¬ (isScalar = true ∧ fheOp = .fheDiv ∧ rhs.all (· == 0) = true))
    (operandError (.fheOperationScalarDivisionByZero (hexText lhs) (hexText rhs) fheOperation
      fheOp.name))

def checkCast (fheOperation : ℤ) (inputHandles : List (List UInt8))
    (isInputHandleScalar : List Bool) : Except OperationFailure Unit := do
  let name := SupportedFheOperations.fheCast.name
  checkOperandCount fheOperation .fheCast 2 inputHandles.length
  let left := isInputHandleScalar.getD 0 false
  let right := isInputHandleScalar.getD 1 false
  require (left = false ∧ right = true) (operandError (.unexpectedCastOperandTypes fheOperation name
    ["handle", "scalar"] [operandKind left, operandKind right]))
  let op := inputHandles.getD 1 []
  require (op.length = 1) (operandError (.unexpectedCastOperandSizeForScalarOperand fheOperation
    name 1 op.length))

def checkTrivialEncrypt (fheOperation : ℤ) (inputHandles : List (List UInt8))
    (isInputHandleScalar : List Bool) : Except OperationFailure Unit := do
  let name := SupportedFheOperations.fheTrivialEncrypt.name
  checkOperandCount fheOperation .fheTrivialEncrypt 2 inputHandles.length
  require (isInputHandleScalar.getD 0 false = true ∧ isInputHandleScalar.getD 1 false = true)
    (operandError (.allInputsForTrivialEncryptionMustBeScalar fheOperation name))
  let op := inputHandles.getD 1 []
  require (op.length = 1) (operandError (.unexpectedTrivialEncryptionOperandSizeForScalarOperand
    fheOperation name 1 op.length))

/-- All operands of a random operation are scalars. -/
def checkRandScalars (fheOperation : ℤ) (fheOp : SupportedFheOperations) (expectedOperands : ℕ)
    (isInputHandleScalar : List Bool) : Except OperationFailure Unit :=
  let scalarOperands := isInputHandleScalar.count true
  require (¬ scalarOperands < expectedOperands) (operandError (.randOperationInputsMustAllBeScalar
    fheOperation fheOp.name scalarOperands expectedOperands))

def checkRandType (fheOperation : ℤ) (fheOp : SupportedFheOperations) (randType : List UInt8) :
    Except OperationFailure Unit :=
  require (randType.length = 1) (operandError (.unexpectedRandOperandSizeForOutputType fheOperation
    fheOp.name 1 randType.length))

def checkRand (fheOperation : ℤ) (inputHandles : List (List UInt8))
    (isInputHandleScalar : List Bool) : Except OperationFailure Unit := do
  checkOperandCount fheOperation .fheRand 2 inputHandles.length
  checkRandScalars fheOperation .fheRand 2 isInputHandleScalar
  let randType := inputHandles.getD 1 []
  checkRandType fheOperation .fheRand randType
  validateFheType (randType.getD 0 0).toNat

def checkRandBounded (fheOperation : ℤ) (inputHandles : List (List UInt8))
    (isInputHandleScalar : List Bool) : Except OperationFailure Unit := do
  checkOperandCount fheOperation .fheRandBounded 3 inputHandles.length
  checkRandScalars fheOperation .fheRandBounded 3 isInputHandleScalar
  let upperBound := inputHandles.getD 1 []
  -- only the empty bound is refused
  require (¬ (upperBound = [] ∧ upperBound.all (· == 0) = true))
    (operandError (.randOperationUpperBoundCannotBeZero fheOperation
      SupportedFheOperations.fheRandBounded.name (hexText upperBound)))
  checkRandType fheOperation .fheRandBounded (inputHandles.getD 2 [])

def checkFheOperandTypes (fheOperation : ℤ) (inputHandles : List (List UInt8))
    (isInputHandleScalar : List Bool) : Except OperationFailure Unit :=
  match SupportedFheOperations.tryFrom fheOperation with
  | none => .error (operandError (.unknownFheOperation fheOperation))
  | some fheOp => do
    require (inputHandles.length = isInputHandleScalar.length) .panic
    let scalars := scalarOperands isInputHandleScalar
    -- do this check for only random ops because all random ops inputs are scalar
    if fheOp.doesHaveMoreThanOneScalar = false then
      checkScalarOperands fheOperation fheOp scalars
    match fheOp.opType, fheOp with
    | .binary, _ => checkBinary fheOperation fheOp inputHandles (scalars ≠ [])
    | .unary, _ => checkOperandCount fheOperation fheOp 1 inputHandles.length
    | .other, .fheIfThenElse => checkOperandCount fheOperation fheOp 3 inputHandles.length
    | .other, .fheCast => checkCast fheOperation inputHandles isInputHandleScalar
    | .other, .fheTrivialEncrypt => checkTrivialEncrypt fheOperation inputHandles isInputHandleScalar
    | .other, .fheRand => checkRand fheOperation inputHandles isInputHandleScalar
    | .other, .fheRandBounded => checkRandBounded fheOperation inputHandles isInputHandleScalar
    | .other, _ => .error .panic

/-- The scalars of an operation, as the worker flags them. -/
def isOperandScalar (fheOp : SupportedFheOperations) (isScalar : Bool) (idx : ℕ) : Bool :=
  isScalar && idx == 1 || fheOp.doesHaveMoreThanOneScalar

def isScalarOpVec (fheOp : SupportedFheOperations) (isScalar : Bool) (operands : ℕ) : List Bool :=
  (List.range operands).map (isOperandScalar fheOp isScalar)

/-! ## What is accepted -/

section Accepted

variable {fheOp : SupportedFheOperations}

/-- Binary operations on handles, or on a handle and a scalar that is not a zero divisor. -/
theorem check_binary (hbinary : fheOp.opType = .binary) (lhs rhs : List UInt8) (isScalar : Bool)
    (hdiv : isScalar = true → fheOp = .fheDiv → rhs.all (· == 0) = false) :
    checkFheOperandTypes fheOp.toInt [lhs, rhs] (isScalarOpVec fheOp isScalar 2) = .ok () := by
  have hmany : fheOp.doesHaveMoreThanOneScalar = false := by
    cases fheOp <;> first | rfl | cases hbinary
  have hsupport : doesFheOperationSupportScalar fheOp = true := by
    rw [doesFheOperationSupportScalar, hbinary]
  have hcheck : checkBinary fheOp.toInt fheOp [lhs, rhs] isScalar = .ok () := by
    simp only [checkBinary, checkOperandCount, bind_eq_ok, require_eq_ok, exists_const]
    refine ⟨rfl, ?_⟩
    rintro ⟨hscalar, hop, hzero⟩
    rw [show ([lhs, rhs] : List _).getD 1 [] = rhs from rfl, hdiv hscalar hop] at hzero
    cases hzero
  cases isScalar with
  | false =>
    have hvec : isScalarOpVec fheOp false 2 = [false, false] := by
      simp [isScalarOpVec, isOperandScalar, hmany, List.range_succ]
    simpa [checkFheOperandTypes, hvec, hbinary, hmany, scalarOperands, checkScalarOperands,
      List.range_succ] using hcheck
  | true =>
    have hvec : isScalarOpVec fheOp true 2 = [false, true] := by
      simp [isScalarOpVec, isOperandScalar, hmany, List.range_succ]
    simpa [checkFheOperandTypes, hvec, hbinary, hmany, scalarOperands, checkScalarOperands,
      List.range_succ, hsupport] using hcheck

/-- A bounded random number with a bound of at least a byte. -/
theorem check_randBounded (randCounter : List UInt8) {upperBound randType : List UInt8}
    (hbound : upperBound ≠ []) (htype : randType.length = 1) :
    checkFheOperandTypes SupportedFheOperations.fheRandBounded.toInt
      [randCounter, upperBound, randType] (isScalarOpVec .fheRandBounded true 3) = .ok () := by
  have hvec : isScalarOpVec .fheRandBounded true 3 = [true, true, true] := rfl
  have hcheck : checkRandBounded SupportedFheOperations.fheRandBounded.toInt
      [randCounter, upperBound, randType] [true, true, true] = .ok () := by
    simp only [checkRandBounded, checkOperandCount, checkRandScalars, checkRandType, bind_eq_ok,
      require_eq_ok, exists_const]
    exact ⟨rfl, by decide, fun h => hbound h.1, htype⟩
  rw [checkFheOperandTypes, hvec, SupportedFheOperations.tryFrom_toInt]
  exact hcheck

end Accepted

end Fhevm
