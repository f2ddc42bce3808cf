import Fhevm.LibrarySolidity.TemplateFHE

/-!
# What the functions of the library mean

The operators are those of integers of a fixed width. Operands of different widths are promoted to
the wider type, and the operands of an operator stand in the order of the source. The executor
computes the same values.

## Main definitions

* `OperatorName.apply` — the operators on integers of one width.
* `meaning` — the value of a function of the library.
-/

namespace Fhevm.LibrarySolidity

open Host

def ParamType.bits : ParamType → Nat
  | .encrypted type => type.bits
  | .clear type => type.bits

/-- The width of the widest parameter. -/
def promotedBits (params : List ParamType) : Nat := (params.map ParamType.bits).foldr max 0

/-- The operators on integers of `w` bits. Shifts and rotations are modulo the width, and `select`
takes its third operand where the first one is zero. -/
def OperatorName.apply {w : Nat} (operands : Nat → BitVec w) : OperatorName → Nat
  | .add => (operands 0 + operands 1).toNat
  | .sub => (operands 0 - operands 1).toNat
  | .mul => (operands 0 * operands 1).toNat
  | .div => (operands 0 / operands 1).toNat
  | .rem => (operands 0 % operands 1).toNat
  | .and => (operands 0 &&& operands 1).toNat
  | .or => (operands 0 ||| operands 1).toNat
  | .xor => (operands 0 ^^^ operands 1).toNat
  | .shl => (operands 0 <<< ((operands 1).toNat % w)).toNat
  | .shr => (operands 0 >>> ((operands 1).toNat % w)).toNat
  | .rotl => ((operands 0).rotateLeft (operands 1).toNat).toNat
  | .rotr => ((operands 0).rotateRight (operands 1).toNat).toNat
  | .eq => (decide (operands 0 = operands 1)).toNat
  | .ne => (decide (operands 0 ≠ operands 1)).toNat
  | .ge => (decide (operands 1 ≤ operands 0)).toNat
  | .gt => (decide (operands 1 < operands 0)).toNat
  | .le => (decide (operands 0 ≤ operands 1)).toNat
  | .lt => (decide (operands 0 < operands 1)).toNat
  | .min => Min.min (operands 0).toNat (operands 1).toNat
  | .max => Max.max (operands 0).toNat (operands 1).toNat
  | .neg => (-operands 0).toNat
  | .not => (~~~operands 0).toNat
  | .select => if operands 0 = 0 then (operands 2).toNat else (operands 1).toNat

/-- The value of a function for the values of its arguments. A conversion to `ebool` asks whether a
number is zero, and the other conversions keep the low bits. -/
def meaning (name : FunctionName) (params : List ParamType) (values : Nat → Nat) : Nat :=
  match name with
  | .operator name => name.apply fun i => BitVec.ofNat (promotedBits params) (values i)
  | .asE (.fhe .bool) => if values 0 = 0 then 0 else 1
  | .asE type => values 0 % 2 ^ type.bits

/-! ## The executor computes the operators -/

section Executor

variable {op : Operator} {n : Nat}

theorem toNat_decide (p : Prop) [Decidable p] : (decide p).toNat = if p then 1 else 0 := by
  by_cases hp : p <;> simp [hp]

theorem binary_clearText {f : BinaryOperator} (hop : op ∈ ALL_OPERATORS)
    (hf : op.arguments = .binary f) (x : Nat → BitVec n) :
    f.clearText n (x 0).toNat (x 1).toNat = op.name.apply x := by
  have h0 := (x 0).isLt
  have h1 := (x 1).isLt
  have hshiftRight : ∀ k, (x 0).toNat >>> k < 2 ^ n := fun k => (Nat.shiftRight_le _ k).trans_lt h0
  unfold ALL_OPERATORS at hop
  fin_cases hop <;> cases hf <;> simp only [BinaryOperator.clearText, OperatorName.apply]
  · rw [BitVec.toNat_add]
  · rw [BitVec.toNat_sub]
    split_ifs with hlt
    · congr 1
      omega
    · have hsum : 2 ^ n - (x 1).toNat + (x 0).toNat = (x 0).toNat - (x 1).toNat + 2 ^ n := by omega
      rw [hsum, Nat.add_mod_right]
  · rw [BitVec.toNat_mul]
  · rw [BitVec.toNat_udiv]
  · rw [BitVec.toNat_umod]
  · rw [BitVec.toNat_and, Nat.mod_eq_of_lt (Nat.and_lt_two_pow _ h1)]
  · rw [BitVec.toNat_or, Nat.mod_eq_of_lt (Nat.or_lt_two_pow h0 h1)]
  · rw [BitVec.toNat_xor, Nat.mod_eq_of_lt (Nat.xor_lt_two_pow h0 h1)]
  · rw [BitVec.toNat_shiftLeft]
  · rw [BitVec.toNat_ushiftRight, Nat.mod_eq_of_lt (hshiftRight _)]
  · rw [BitVec.toNat_rotateLeft, Nat.or_mod_two_pow, Nat.mod_eq_of_lt (hshiftRight _)]
  · rw [BitVec.toNat_rotateRight, Nat.or_mod_two_pow, Nat.mod_eq_of_lt (hshiftRight _)]
  · simp only [toNat_decide, BitVec.toNat_inj]
  · simp only [toNat_decide, ne_eq, BitVec.toNat_inj]
  · simp only [toNat_decide, BitVec.le_def, ge_iff_le]
  · simp only [toNat_decide, BitVec.lt_def, gt_iff_lt]
  · simp only [toNat_decide, BitVec.le_def]
  · simp only [toNat_decide, BitVec.lt_def]
  · grind
  · grind

theorem unary_clearText {f : UnaryOperator} (hop : op ∈ ALL_OPERATORS)
    (hf : op.arguments = .unary f) (x : Nat → BitVec n) :
    f.clearText n (x 0).toNat = op.name.apply x := by
  have h0 := (x 0).isLt
  unfold ALL_OPERATORS at hop
  fin_cases hop <;> cases hf <;>
    simp only [UnaryOperator.clearText, bitwiseNotUintBits, OperatorName.apply]
  · rw [BitVec.toNat_neg, Nat.mod_eq_of_lt h0]
    congr 1
    omega
  · rw [BitVec.toNat_not, Nat.mod_eq_of_lt h0]

/-- The operator for a left plaintext, with the operands swapped, is the operator itself. -/
theorem apply_leftScalar (hop : op ∈ ALL_OPERATORS) (hencrypt : op.leftScalarEncrypt = false)
    (hdisable : op.leftScalarDisable = false) (hbinary : op.isBinary = true) (x : Nat → BitVec n) :
    (op.leftScalarInvertOp.getD op.name).apply (fun i => x (1 - i)) = op.name.apply x := by
  unfold ALL_OPERATORS at hop
  fin_cases hop <;>
    first
    | exact absurd hencrypt (by decide)
    | exact absurd hdisable (by decide)
    | exact absurd hbinary (by decide)
    | simp only [Option.getD_none, Option.getD_some, OperatorName.apply, Nat.sub_zero, Nat.sub_self]
  · rw [BitVec.add_comm]
  · rw [BitVec.mul_comm]
  · rw [BitVec.and_comm]
  · rw [BitVec.or_comm]
  · rw [BitVec.xor_comm]
  · simp only [eq_comm]
  · simp only [ne_comm]
  · rw [Nat.min_comm]
  · rw [Nat.max_comm]

end Executor

end Fhevm.LibrarySolidity
