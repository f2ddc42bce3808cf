import Fhevm.Host.Computation

/-!
# The clear texts of handles

A coprocessor that keeps clear texts in the place of ciphertexts computes the clear text of a
result from the event of the operation. Integers are computed modulo two to the power of their
width, and shifts modulo the width.

## Main definitions

* `FheType.numBits` — the widths.
* `TfheEvent.clearText` — the clear text that an event gives its result.
* `ClearTexts` — the clear texts of all handles, which fit their types.
-/

namespace Fhevm.Host

/-- `NumBits` -/
def FheType.numBits : FheType → Nat
  | .bool => 1
  | .uint8 => 8
  | .uint16 => 16
  | .uint32 => 32
  | .uint64 => 64
  | .uint128 => 128
  | .uint160 => 160
  | .uint256 => 256
  | .uint512 => 512
  | .uint1024 => 1024
  | .uint2048 => 2048
  -- no operation has a result of another type
  | _ => 0

def bitwiseNotUintBits (value numBits : Nat) : Nat := 2 ^ numBits - 1 - value % 2 ^ numBits

/-- The clear text of a binary operation. Divisors are not zero. -/
def BinaryOperator.clearText (op : BinaryOperator) (numBits clearLHS clearRHS : Nat) : Nat :=
  match op with
  | .fheAdd => (clearLHS + clearRHS) % 2 ^ numBits
  | .fheSub =>
    if clearLHS < clearRHS then (clearLHS + 2 ^ numBits - clearRHS) % 2 ^ numBits
    else (clearLHS - clearRHS) % 2 ^ numBits
  | .fheMul => clearLHS * clearRHS % 2 ^ numBits
  | .fheDiv => clearLHS / clearRHS
  | .fheRem => clearLHS % clearRHS
  | .fheBitAnd => (clearLHS &&& clearRHS) % 2 ^ numBits
  | .fheBitOr => (clearLHS ||| clearRHS) % 2 ^ numBits
  | .fheBitXor => (clearLHS ^^^ clearRHS) % 2 ^ numBits
  | .fheShl => (clearLHS <<< (clearRHS % numBits)) % 2 ^ numBits
  | .fheShr => (clearLHS >>> (clearRHS % numBits)) % 2 ^ numBits
  | .fheRotl =>
    let shift := clearRHS % numBits
    (clearLHS <<< shift ||| clearLHS >>> (numBits - shift)) % 2 ^ numBits
  | .fheRotr =>
    let shift := clearRHS % numBits
    (clearLHS >>> shift ||| clearLHS <<< (numBits - shift)) % 2 ^ numBits
  | .fheEq => if clearLHS = clearRHS then 1 else 0
  | .fheNe => if clearLHS ≠ clearRHS then 1 else 0
  | .fheGe => if clearLHS ≥ clearRHS then 1 else 0
  | .fheGt => if clearLHS > clearRHS then 1 else 0
  | .fheLe => if clearLHS ≤ clearRHS then 1 else 0
  | .fheLt => if clearLHS < clearRHS then 1 else 0
  | .fheMin => if clearLHS < clearRHS then clearLHS else clearRHS
  | .fheMax => if clearLHS > clearRHS then clearLHS else clearRHS

def UnaryOperator.clearText (op : UnaryOperator) (numBits clearText : Nat) : Nat :=
  match op with
  | .fheNot => bitwiseNotUintBits clearText numBits
  | .fheNeg => (bitwiseNotUintBits clearText numBits + 1) % 2 ^ numBits

def TfheEvent.result : TfheEvent → Bytes32
  | .binary _ _ _ _ _ result => result
  | .unary _ _ _ result => result
  | .verifyInput _ _ _ _ _ result => result
  | .cast _ _ _ result => result
  | .trivialEncrypt _ _ _ result => result
  | .fheIfThenElse _ _ _ _ result => result
  | .fheRand _ _ _ result => result
  | .fheRandBounded _ _ _ _ result => result

/-- The width that is read off a result. -/
def resultBits (result : Bytes32) : Nat := ((typeOf result).map FheType.numBits).getD 0

/-- `insertHandleFromEvent`: inputs have the clear text of their owner, and random numbers are
drawn. -/
def TfheEvent.clearText (getClearText : Bytes32 → Nat) : TfheEvent → Option Nat
  | .binary op _ lhs rhs scalarByte result =>
    let clearRHS := if scalarByte = 0x01 then rhs.toNat else getClearText rhs
    some (op.clearText (resultBits result) (getClearText lhs) clearRHS)
  | .unary op _ ct result => some (op.clearText (resultBits result) (getClearText ct))
  | .cast _ ct toType _ => some (getClearText ct % 2 ^ toType.numBits)
  | .trivialEncrypt _ pt _ _ => some pt.toNat
  | .fheIfThenElse _ control ifTrue ifFalse _ =>
    some (if getClearText control = 1 then getClearText ifTrue else getClearText ifFalse)
  | .verifyInput _ _ _ _ _ _ | .fheRand _ _ _ _ | .fheRandBounded _ _ _ _ _ => none

/-- The clear text of each handle. It is a value of the type of the handle. -/
structure ClearTexts where
  text : Bytes32 → Nat
  lt : ∀ handle t, typeOf handle = some t → text handle < 2 ^ t.numBits

/-- The clear text of the result is the one that the event gives it. -/
def ClearTexts.Evaluates (clear : ClearTexts) (event : TfheEvent) : Prop :=
  ∀ clearText, event.clearText clear.text = some clearText → clear.text event.result = clearText

/-- Comparisons do not use the width of their result. -/
theorem clearText_resultType (f : BinaryOperator) (t : FheType) (a b : Nat) :
    f.clearText (f.resultType t).numBits a b = f.clearText t.numBits a b := by
  cases f <;> rfl

theorem resultBits_eq {result : Bytes32} {t : FheType} (h : typeOf result = some t) :
    resultBits result = t.numBits := by
  rw [resultBits, h, Option.map_some, Option.getD_some]

end Fhevm.Host
