import Fhevm.Host.FHEVMExecutor
import Fhevm.Worker.Database

/-!
# Recording the events of the executor

The host listener turns every event of the executor into a computation. Handles
among the operands come first, then the operands that are given in clear.

## Main definitions

* `eventToOpInt` — the number of the operation of an event.
* `insertTfheEvent` — the row of an event, if it has one.
-/

namespace Fhevm.Listener

open Foundation Host Worker

/-- An event with its transaction, and whether a later event of the block allows its result. -/
structure LogTfhe where
  event : TfheEvent
  transactionHash : Handle
  isAllowed : Bool
deriving DecidableEq, Repr

def binaryToOp : BinaryOperator → SupportedFheOperations
  | .fheAdd => .fheAdd
  | .fheSub => .fheSub
  | .fheMul => .fheMul
  | .fheDiv => .fheDiv
  | .fheRem => .fheRem
  | .fheBitAnd => .fheBitAnd
  | .fheBitOr => .fheBitOr
  | .fheBitXor => .fheBitXor
  | .fheShl => .fheShl
  | .fheShr => .fheShr
  | .fheRotl => .fheRotl
  | .fheRotr => .fheRotr
  | .fheEq => .fheEq
  | .fheNe => .fheNe
  | .fheGe => .fheGe
  | .fheGt => .fheGt
  | .fheLe => .fheLe
  | .fheLt => .fheLt
  | .fheMin => .fheMin
  | .fheMax => .fheMax

def unaryToOp : UnaryOperator → SupportedFheOperations
  | .fheNeg => .fheNeg
  | .fheNot => .fheNot

/-- The number of the operation of an event; `-1` is none. -/
def eventToOpInt : TfheEvent → ℤ
  | .binary op _ _ _ _ _ => (binaryToOp op).toInt
  | .unary op _ _ _ => (unaryToOp op).toInt
  | .cast _ _ _ _ => SupportedFheOperations.fheCast.toInt
  | .trivialEncrypt _ _ _ _ => SupportedFheOperations.fheTrivialEncrypt.toInt
  | .fheIfThenElse _ _ _ _ _ => SupportedFheOperations.fheIfThenElse.toInt
  | .fheRand _ _ _ _ => SupportedFheOperations.fheRand.toInt
  | .fheRandBounded _ _ _ _ _ => SupportedFheOperations.fheRandBounded.toInt
  | .verifyInput _ _ _ _ _ _ => -1

/-- The byte of a type among the operands. -/
def ty (toType : FheType) : List UInt8 := [UInt8.ofNat toType.toNat]

def asBytes (x : BitVec 256) : List UInt8 := wordBytes x

def HAS_SCALAR : UInt8 := 1

def NO_SCALAR : UInt8 := 0

/-- The row of a computation. -/
def insertComputationBytes (tenantId : ℤ) (now : ℕ) (log : LogTfhe) (result : Bytes32)
    (dependenciesHandles : List Bytes32) (dependenciesBytes : List (List UInt8))
    (scalarByte : UInt8) : Worker.Computation where
  tenantId := tenantId
  outputHandle := wordBytes result
  dependencies := dependenciesHandles.map wordBytes ++ dependenciesBytes
  fheOperation := eventToOpInt log.event
  isScalar := scalarByte != 0
  isAllowed := log.isAllowed
  transactionId := log.transactionHash
  scheduleOrder := now

def insertComputation (tenantId : ℤ) (now : ℕ) (log : LogTfhe) (result : Bytes32)
    (dependencies : List Bytes32) (scalarByte : UInt8) : Worker.Computation :=
  insertComputationBytes tenantId now log result dependencies [] scalarByte

/-- The row that is inserted for an event. The verification of an input has none. -/
def insertTfheEvent (tenantId : ℤ) (now : ℕ) (log : LogTfhe) : Option Worker.Computation :=
  let insertBytes := insertComputationBytes tenantId now log
  let insert := insertComputation tenantId now log
  match log.event with
  | .cast _ ct toType result => insertBytes result [ct] [ty toType] HAS_SCALAR
  | .binary _ _ lhs rhs scalarByte result => insert result [lhs, rhs] scalarByte
  | .fheIfThenElse _ control ifTrue ifFalse result =>
    insert result [control, ifTrue, ifFalse] NO_SCALAR
  | .unary _ _ ct result => insert result [ct] NO_SCALAR
  | .fheRand _ randType seed result =>
    insertBytes result [] [FHEVMExecutor.seedBytes seed, ty randType] HAS_SCALAR
  | .fheRandBounded _ upperBound randType seed result =>
    insertBytes result [] [FHEVMExecutor.seedBytes seed, asBytes upperBound, ty randType] HAS_SCALAR
  | .trivialEncrypt _ pt toType result => insertBytes result [] [asBytes pt, ty toType] HAS_SCALAR
  | .verifyInput _ _ _ _ _ _ => none

end Fhevm.Listener
