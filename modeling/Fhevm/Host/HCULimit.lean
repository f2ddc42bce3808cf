import Fhevm.Host.ACL

/-!
# The limits on homomorphic computation units

Every operation has a cost. The costs of a transaction are added up, and for each
result the cost of the longest chain of operations that leads to it is kept. Both
are kept in transient storage: the sum in slot `0`, and each depth in the slot that
is the handle itself.

## Main definitions

* `HCUStorage` — the transient storage of the contract.
* `charge` — what an operation with a given cost does to it.
* `checkHCUForFheAdd` and its siblings — the entry points.
* `Charged` — the effect of an accepted operation.
-/

namespace Fhevm.Host

open Foundation

def MAX_HOMOMORPHIC_COMPUTE_UNITS_DEPTH_PER_TX : Nat := 5000000

def MAX_HOMOMORPHIC_COMPUTE_UNITS_PER_TX : Nat := 20000000

/-- The transient storage of the contract. Its values stay below the limits, so that the
additions of the contract do not overflow. -/
abbrev HCUStorage := Bytes32 → Nat

namespace HCUStorage

def init : HCUStorage := fun _ => 0

def getHCUForHandle (s : HCUStorage) (handle : Bytes32) : Nat := s handle

def getHCUForTransaction (s : HCUStorage) : Nat := s 0

def setHCUForHandle (s : HCUStorage) (handle : Bytes32) (handleHCU : Nat) : HCUStorage :=
  Function.update s handle handleHCU

def setHCUForTransaction (s : HCUStorage) (transactionHCU : Nat) : HCUStorage :=
  Function.update s 0 transactionHCU

/-- The largest depth of some handles. -/
def maxHCU (s : HCUStorage) (handles : List Bytes32) : Nat :=
  handles.foldr (fun handle depth => max (s.getHCUForHandle handle) depth) 0

end HCUStorage

open HCUStorage

theorem maxHCU_update_zero {s : HCUStorage} {n : Nat} {operands : List Bytes32}
    (h : ∀ operand ∈ operands, operand ≠ 0) :
    HCUStorage.maxHCU (Function.update s 0 n) operands = s.maxHCU operands := by
  induction operands with
  | nil => rfl
  | cons operand operands ih =>
    have hne := h operand List.mem_cons_self
    have ih' := ih fun o ho => h o (List.mem_cons_of_mem operand ho)
    simp only [HCUStorage.maxHCU, List.foldr_cons, HCUStorage.getHCUForHandle] at ih' ⊢
    rw [ih', Function.update_of_ne hne]

theorem maxHCU_le {s : HCUStorage} {n : Nat} {operands : List Bytes32}
    (h : ∀ operand ∈ operands, s operand ≤ n) : s.maxHCU operands ≤ n := by
  induction operands with
  | nil => exact Nat.zero_le n
  | cons operand operands ih =>
    exact max_le (h operand List.mem_cons_self) (ih fun o ho => h o (List.mem_cons_of_mem operand ho))

theorem le_maxHCU {s : HCUStorage} {operand : Bytes32} {operands : List Bytes32}
    (h : operand ∈ operands) : s operand ≤ s.maxHCU operands := by
  induction operands with
  | nil => cases h
  | cons o operands ih =>
    rcases List.mem_cons.mp h with rfl | h
    · exact le_max_left _ _
    · exact (ih h).trans (le_max_right _ _)

/-! ## Limits -/

def updateAndVerifyHCUTransactionLimit (opHCU : Nat) (s : HCUStorage) : Result HCUStorage := do
  let transactionHCU := opHCU + s.getHCUForTransaction
  require (¬ MAX_HOMOMORPHIC_COMPUTE_UNITS_PER_TX ≤ transactionHCU) .hcuTransactionLimitExceeded
  return s.setHCUForTransaction transactionHCU

/-- The course of `_adjustAndCheckFheTransactionLimit*` for the operands of an operation. -/
def charge (opHCU : Nat) (operands : List Bytes32) (result : Bytes32) (s : HCUStorage) :
    Result HCUStorage := do
  let s ← updateAndVerifyHCUTransactionLimit opHCU s
  let totalHCU := opHCU + s.maxHCU operands
  require (¬ MAX_HOMOMORPHIC_COMPUTE_UNITS_DEPTH_PER_TX ≤ totalHCU)
    .hcuTransactionDepthLimitExceeded
  return s.setHCUForHandle result totalHCU

def adjustAndCheckFheTransactionLimitOneOp (opHCU : Nat) (op1 result : Bytes32) :
    HCUStorage → Result HCUStorage :=
  charge opHCU [op1] result

def adjustAndCheckFheTransactionLimitTwoOps (opHCU : Nat) (op1 op2 result : Bytes32) :
    HCUStorage → Result HCUStorage :=
  charge opHCU [op1, op2] result

def adjustAndCheckFheTransactionLimitThreeOps (opHCU : Nat) (op1 op2 op3 result : Bytes32) :
    HCUStorage → Result HCUStorage :=
  charge opHCU [op1, op2, op3] result

/-! ## Entry points -/

/-- Costs by type. -/
abbrev HCUTable := List (FheType × Nat)

def opHCU (table : HCUTable) (resultType : FheType) : Result Nat :=
  match table.lookup resultType with
  | some cost => .ok cost
  | none => .error .unsupportedOperation

/-- The costs of a binary operation with a scalar and with an encrypted right operand. -/
structure BinaryHCU where
  scalar : HCUTable
  nonScalar : HCUTable

/-- The cost of a binary operation. -/
def BinaryHCU.cost (table : BinaryHCU) (resultType : FheType) (scalarByte : UInt8) : Option Nat :=
  if scalarByte = 0x01 then table.scalar.lookup resultType
  else table.nonScalar.lookup resultType

variable (D : Deployment)

def onlyExecutor (sender : Address) : Result Unit :=
  require (sender = D.fhevmExecutorAdd) .callerMustBeFHEVMExecutorContract

/-- The course of the checks on binary operations. -/
def checkHCUForBinary (table : BinaryHCU) (sender : Address) (resultType : FheType)
    (scalarByte : UInt8) (lhs rhs result : Bytes32) (s : HCUStorage) : Result HCUStorage := do
  onlyExecutor D sender
  if scalarByte = 0x01 then
    let opHCU ← opHCU table.scalar resultType
    adjustAndCheckFheTransactionLimitOneOp opHCU lhs result s
  else
    let opHCU ← opHCU table.nonScalar resultType
    adjustAndCheckFheTransactionLimitTwoOps opHCU lhs rhs result s

/-- The course of the checks on binary operations whose right operand must be a scalar. -/
def checkHCUForScalar (table : HCUTable) (sender : Address) (resultType : FheType)
    (scalarByte : UInt8) (lhs _rhs result : Bytes32) (s : HCUStorage) : Result HCUStorage := do
  onlyExecutor D sender
  require (scalarByte = 0x01) .onlyScalarOperationsAreSupported
  let opHCU ← opHCU table resultType
  adjustAndCheckFheTransactionLimitOneOp opHCU lhs result s

/-- The course of the checks on operations with one operand. -/
def checkHCUForUnary (table : HCUTable) (sender : Address) (resultType : FheType)
    (ct result : Bytes32) (s : HCUStorage) : Result HCUStorage := do
  onlyExecutor D sender
  let opHCU ← opHCU table resultType
  adjustAndCheckFheTransactionLimitOneOp opHCU ct result s

/-- The course of the checks on operations without encrypted operands. Their depth is not
compared with the limit. -/
def checkHCUForSource (table : HCUTable) (sender : Address) (resultType : FheType)
    (result : Bytes32) (s : HCUStorage) : Result HCUStorage := do
  onlyExecutor D sender
  let opHCU ← opHCU table resultType
  let s ← updateAndVerifyHCUTransactionLimit opHCU s
  return s.setHCUForHandle result opHCU

def fheAddHCU : BinaryHCU where
  scalar := [(.uint8, 84000), (.uint16, 93000), (.uint32, 95000), (.uint64, 133000),
    (.uint128, 172000)]
  nonScalar := [(.uint8, 88000), (.uint16, 93000), (.uint32, 125000), (.uint64, 162000),
    (.uint128, 259000)]

def checkHCUForFheAdd := checkHCUForBinary D fheAddHCU

def fheSubHCU : BinaryHCU where
  scalar := [(.uint8, 84000), (.uint16, 93000), (.uint32, 95000), (.uint64, 133000),
    (.uint128, 172000)]
  nonScalar := [(.uint8, 91000), (.uint16, 93000), (.uint32, 125000), (.uint64, 162000),
    (.uint128, 260000)]

def checkHCUForFheSub := checkHCUForBinary D fheSubHCU

def fheMulHCU : BinaryHCU where
  scalar := [(.uint8, 122000), (.uint16, 193000), (.uint32, 265000), (.uint64, 365000),
    (.uint128, 696000)]
  nonScalar := [(.uint8, 150000), (.uint16, 222000), (.uint32, 328000), (.uint64, 596000),
    (.uint128, 1686000)]

def checkHCUForFheMul := checkHCUForBinary D fheMulHCU

def fheDivHCU : HCUTable :=
  [(.uint8, 210000), (.uint16, 302000), (.uint32, 438000), (.uint64, 715000), (.uint128, 1225000)]

def checkHCUForFheDiv := checkHCUForScalar D fheDivHCU

def fheRemHCU : HCUTable :=
  [(.uint8, 440000), (.uint16, 580000), (.uint32, 792000), (.uint64, 1153000),
    (.uint128, 1943000)]

def checkHCUForFheRem := checkHCUForScalar D fheRemHCU

def fheBitAndHCU : BinaryHCU where
  scalar := [(.bool, 22000), (.uint8, 31000), (.uint16, 31000), (.uint32, 32000),
    (.uint64, 34000), (.uint128, 37000), (.uint256, 38000)]
  nonScalar := [(.bool, 25000), (.uint8, 31000), (.uint16, 31000), (.uint32, 32000),
    (.uint64, 34000), (.uint128, 37000), (.uint256, 38000)]

def checkHCUForFheBitAnd := checkHCUForBinary D fheBitAndHCU

def fheBitOrHCU : BinaryHCU where
  scalar := [(.bool, 22000), (.uint8, 30000), (.uint16, 30000), (.uint32, 32000),
    (.uint64, 34000), (.uint128, 37000), (.uint256, 38000)]
  nonScalar := [(.bool, 24000), (.uint8, 30000), (.uint16, 31000), (.uint32, 32000),
    (.uint64, 34000), (.uint128, 37000), (.uint256, 38000)]

def checkHCUForFheBitOr := checkHCUForBinary D fheBitOrHCU

def fheBitXorHCU : BinaryHCU where
  scalar := [(.bool, 22000), (.uint8, 31000), (.uint16, 31000), (.uint32, 32000),
    (.uint64, 34000), (.uint128, 37000), (.uint256, 39000)]
  nonScalar := [(.bool, 22000), (.uint8, 31000), (.uint16, 31000), (.uint32, 32000),
    (.uint64, 34000), (.uint128, 37000), (.uint256, 39000)]

def checkHCUForFheBitXor := checkHCUForBinary D fheBitXorHCU

def fheShlHCU : BinaryHCU where
  scalar := [(.uint8, 32000), (.uint16, 32000), (.uint32, 32000), (.uint64, 34000),
    (.uint128, 37000), (.uint256, 39000)]
  nonScalar := [(.uint8, 92000), (.uint16, 125000), (.uint32, 162000), (.uint64, 208000),
    (.uint128, 272000), (.uint256, 378000)]

def checkHCUForFheShl := checkHCUForBinary D fheShlHCU

def fheShrHCU : BinaryHCU where
  scalar := [(.uint8, 32000), (.uint16, 32000), (.uint32, 32000), (.uint64, 34000),
    (.uint128, 37000), (.uint256, 38000)]
  nonScalar := [(.uint8, 91000), (.uint16, 123000), (.uint32, 163000), (.uint64, 209000),
    (.uint128, 272000), (.uint256, 369000)]

def checkHCUForFheShr := checkHCUForBinary D fheShrHCU

def fheRotlHCU : BinaryHCU where
  scalar := [(.uint8, 31000), (.uint16, 31000), (.uint32, 32000), (.uint64, 34000),
    (.uint128, 37000), (.uint256, 38000)]
  nonScalar := [(.uint8, 91000), (.uint16, 125000), (.uint32, 163000), (.uint64, 209000),
    (.uint128, 278000), (.uint256, 378000)]

def checkHCUForFheRotl := checkHCUForBinary D fheRotlHCU

def fheRotrHCU : BinaryHCU where
  scalar := [(.uint8, 31000), (.uint16, 31000), (.uint32, 32000), (.uint64, 34000),
    (.uint128, 37000), (.uint256, 40000)]
  nonScalar := [(.uint8, 93000), (.uint16, 125000), (.uint32, 160000), (.uint64, 209000),
    (.uint128, 283000), (.uint256, 375000)]

def checkHCUForFheRotr := checkHCUForBinary D fheRotrHCU

def fheEqHCU : BinaryHCU where
  scalar := [(.bool, 25000), (.uint8, 55000), (.uint16, 55000), (.uint32, 82000),
    (.uint64, 83000), (.uint128, 117000), (.uint160, 117000), (.uint256, 118000)]
  nonScalar := [(.bool, 26000), (.uint8, 55000), (.uint16, 83000), (.uint32, 86000),
    (.uint64, 120000), (.uint128, 122000), (.uint160, 137000), (.uint256, 152000)]

def checkHCUForFheEq := checkHCUForBinary D fheEqHCU

def fheNeHCU : BinaryHCU where
  scalar := [(.bool, 23000), (.uint8, 55000), (.uint16, 55000), (.uint32, 83000),
    (.uint64, 84000), (.uint128, 117000), (.uint160, 117000), (.uint256, 117000)]
  nonScalar := [(.bool, 23000), (.uint8, 55000), (.uint16, 83000), (.uint32, 85000),
    (.uint64, 118000), (.uint128, 122000), (.uint160, 136000), (.uint256, 150000)]

def checkHCUForFheNe := checkHCUForBinary D fheNeHCU

def fheGeHCU : BinaryHCU where
  scalar := [(.uint8, 52000), (.uint16, 55000), (.uint32, 84000), (.uint64, 116000),
    (.uint128, 149000)]
  nonScalar := [(.uint8, 63000), (.uint16, 84000), (.uint32, 118000), (.uint64, 152000),
    (.uint128, 210000)]

def checkHCUForFheGe := checkHCUForBinary D fheGeHCU

def fheGtHCU : BinaryHCU where
  scalar := [(.uint8, 52000), (.uint16, 55000), (.uint32, 84000), (.uint64, 117000),
    (.uint128, 150000)]
  nonScalar := [(.uint8, 59000), (.uint16, 84000), (.uint32, 118000), (.uint64, 152000),
    (.uint128, 218000)]

def checkHCUForFheGt := checkHCUForBinary D fheGtHCU

def fheLeHCU : BinaryHCU where
  scalar := [(.uint8, 58000), (.uint16, 58000), (.uint32, 84000), (.uint64, 119000),
    (.uint128, 150000)]
  nonScalar := [(.uint8, 58000), (.uint16, 83000), (.uint32, 117000), (.uint64, 149000),
    (.uint128, 218000)]

def checkHCUForFheLe := checkHCUForBinary D fheLeHCU

def fheLtHCU : BinaryHCU where
  scalar := [(.uint8, 52000), (.uint16, 58000), (.uint32, 83000), (.uint64, 118000),
    (.uint128, 149000)]
  nonScalar := [(.uint8, 59000), (.uint16, 84000), (.uint32, 117000), (.uint64, 146000),
    (.uint128, 215000)]

def checkHCUForFheLt := checkHCUForBinary D fheLtHCU

def fheMinHCU : BinaryHCU where
  scalar := [(.uint8, 84000), (.uint16, 88000), (.uint32, 117000), (.uint64, 150000),
    (.uint128, 186000)]
  nonScalar := [(.uint8, 119000), (.uint16, 146000), (.uint32, 182000), (.uint64, 219000),
    (.uint128, 289000)]

def checkHCUForFheMin := checkHCUForBinary D fheMinHCU

def fheMaxHCU : BinaryHCU where
  scalar := [(.uint8, 89000), (.uint16, 89000), (.uint32, 117000), (.uint64, 149000),
    (.uint128, 180000)]
  nonScalar := [(.uint8, 121000), (.uint16, 145000), (.uint32, 180000), (.uint64, 218000),
    (.uint128, 290000)]

def checkHCUForFheMax := checkHCUForBinary D fheMaxHCU

def fheNegHCU : HCUTable :=
  [(.uint8, 79000), (.uint16, 93000), (.uint32, 95000), (.uint64, 131000), (.uint128, 168000),
    (.uint256, 269000)]

def checkHCUForFheNeg := checkHCUForUnary D fheNegHCU

def fheNotHCU : HCUTable :=
  [(.bool, 2), (.uint8, 9), (.uint16, 16), (.uint32, 32), (.uint64, 63), (.uint128, 130),
    (.uint256, 130)]

def checkHCUForFheNot := checkHCUForUnary D fheNotHCU

def castHCU : HCUTable :=
  [(.bool, 32), (.uint8, 32), (.uint16, 32), (.uint32, 32), (.uint64, 32), (.uint128, 32),
    (.uint256, 32)]

def checkHCUForCast := checkHCUForUnary D castHCU

def trivialEncryptHCU : HCUTable :=
  [(.bool, 32), (.uint8, 32), (.uint16, 32), (.uint32, 32), (.uint64, 32), (.uint128, 32),
    (.uint160, 32), (.uint256, 32)]

def checkHCUForTrivialEncrypt := checkHCUForSource D trivialEncryptHCU

def ifThenElseHCU : HCUTable :=
  [(.bool, 55000), (.uint8, 55000), (.uint16, 55000), (.uint32, 55000), (.uint64, 55000),
    (.uint128, 57000), (.uint160, 83000), (.uint256, 108000)]

def checkHCUForIfThenElse (sender : Address) (resultType : FheType) (lhs middle rhs result : Bytes32)
    (s : HCUStorage) : Result HCUStorage := do
  onlyExecutor D sender
  let opHCU ← opHCU ifThenElseHCU resultType
  adjustAndCheckFheTransactionLimitThreeOps opHCU lhs middle rhs result s

def fheRandHCU : HCUTable :=
  [(.bool, 19000), (.uint8, 23000), (.uint16, 23000), (.uint32, 24000), (.uint64, 24000),
    (.uint128, 25000), (.uint256, 30000)]

def checkHCUForFheRand := checkHCUForSource D fheRandHCU

def fheRandBoundedHCU : HCUTable :=
  [(.uint8, 23000), (.uint16, 23000), (.uint32, 24000), (.uint64, 24000), (.uint128, 25000),
    (.uint256, 30000)]

def checkHCUForFheRandBounded := checkHCUForSource D fheRandBoundedHCU

/-! ## The effect of an accepted operation -/

/-- The operation is within the limits; its cost is added to the sum, and its result is as deep
as its deepest operand and its own cost. -/
structure Charged (opHCU : Nat) (operands : List Bytes32) (result : Bytes32)
    (s s' : HCUStorage) : Prop where
  transaction_lt : opHCU + s 0 < MAX_HOMOMORPHIC_COMPUTE_UNITS_PER_TX
  depth_lt : opHCU + maxHCU (Function.update s 0 (opHCU + s 0)) operands <
    MAX_HOMOMORPHIC_COMPUTE_UNITS_DEPTH_PER_TX
  eq : s' = Function.update (Function.update s 0 (opHCU + s 0)) result
    (opHCU + maxHCU (Function.update s 0 (opHCU + s 0)) operands)

section Effects

variable {D} {cost : Nat} {operands : List Bytes32} {sender : Address} {resultType : FheType}
  {scalarByte : UInt8} {lhs rhs ct result : Bytes32} {s s' : HCUStorage}

theorem charge_eq_ok :
    charge cost operands result s = .ok s' ↔ Charged cost operands result s s' := by
  simp only [charge, updateAndVerifyHCUTransactionLimit, bind_eq_ok, require_eq_ok, pure_eq_ok,
    exists_const, Nat.not_le]
  constructor
  · rintro ⟨_, ⟨ht, rfl⟩, hd, rfl⟩
    exact ⟨ht, hd, rfl⟩
  · rintro ⟨ht, hd, rfl⟩
    exact ⟨_, ⟨ht, rfl⟩, hd, rfl⟩

theorem opHCU_eq_ok {table : HCUTable} :
    opHCU table resultType = .ok cost ↔ table.lookup resultType = some cost := by
  unfold opHCU
  cases table.lookup resultType <;> simp

@[simp] theorem onlyExecutor_self : onlyExecutor D D.fhevmExecutorAdd = .ok () := by
  simp [onlyExecutor]

theorem checkHCUForBinary_eq_ok {table : BinaryHCU} :
    checkHCUForBinary D table D.fhevmExecutorAdd resultType scalarByte lhs rhs result s = .ok s' ↔
      ∃ cost, table.cost resultType scalarByte = some cost ∧
        Charged cost (if scalarByte = 0x01 then [lhs] else [lhs, rhs]) result s s' := by
  by_cases hscalar : scalarByte = 0x01
  · simp [checkHCUForBinary, BinaryHCU.cost, hscalar, opHCU_eq_ok,
      adjustAndCheckFheTransactionLimitOneOp, charge_eq_ok]
  · simp [checkHCUForBinary, BinaryHCU.cost, hscalar, opHCU_eq_ok,
      adjustAndCheckFheTransactionLimitTwoOps, charge_eq_ok]

theorem checkHCUForScalar_eq_ok {table : HCUTable} :
    checkHCUForScalar D table D.fhevmExecutorAdd resultType scalarByte lhs rhs result s = .ok s' ↔
      scalarByte = 0x01 ∧ ∃ cost, table.lookup resultType = some cost ∧
        Charged cost [lhs] result s s' := by
  simp [checkHCUForScalar, opHCU_eq_ok, adjustAndCheckFheTransactionLimitOneOp, charge_eq_ok]

theorem checkHCUForUnary_eq_ok {table : HCUTable} :
    checkHCUForUnary D table D.fhevmExecutorAdd resultType ct result s = .ok s' ↔
      ∃ cost, table.lookup resultType = some cost ∧ Charged cost [ct] result s s' := by
  simp [checkHCUForUnary, opHCU_eq_ok, adjustAndCheckFheTransactionLimitOneOp, charge_eq_ok]

theorem checkHCUForIfThenElse_eq_ok {middle : Bytes32} :
    checkHCUForIfThenElse D D.fhevmExecutorAdd resultType lhs middle rhs result s = .ok s' ↔
      ∃ cost, ifThenElseHCU.lookup resultType = some cost ∧
        Charged cost [lhs, middle, rhs] result s s' := by
  simp [checkHCUForIfThenElse, opHCU_eq_ok, adjustAndCheckFheTransactionLimitThreeOps,
    charge_eq_ok]

/-- Operations without operands are cheaper than the limit on the depth, which the contract
does not compare them with. -/
theorem checkHCUForSource_eq_ok {table : HCUTable}
    (hcheap : ∀ entry ∈ table, entry.2 < MAX_HOMOMORPHIC_COMPUTE_UNITS_DEPTH_PER_TX) :
    checkHCUForSource D table D.fhevmExecutorAdd resultType result s = .ok s' ↔
      ∃ cost, table.lookup resultType = some cost ∧ Charged cost [] result s s' := by
  have hmem : ∀ {cost}, table.lookup resultType = some cost → (resultType, cost) ∈ table := by
    intro cost h
    obtain ⟨l₁, l₂, heq, -⟩ := List.lookup_eq_some_iff.mp h
    simp [heq]
  simp only [checkHCUForSource, onlyExecutor_self, updateAndVerifyHCUTransactionLimit, bind_eq_ok,
    opHCU_eq_ok, require_eq_ok, pure_eq_ok, exists_const, Nat.not_le]
  constructor
  · rintro ⟨-, cost, hcost, _, ⟨ht, rfl⟩, rfl⟩
    exact ⟨cost, hcost, ht, hcheap _ (hmem hcost), rfl⟩
  · rintro ⟨cost, hcost, ht, -, rfl⟩
    exact ⟨trivial, cost, hcost, _, ⟨ht, rfl⟩, rfl⟩

end Effects

end Fhevm.Host
