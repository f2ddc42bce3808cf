import Fhevm.Common.Types
import Fhevm.Foundation.Table
import Fhevm.Common.OperandTypes
import Fhevm.Scheduler.Types

/-!
# The database of a coprocessor

Computations and ciphertexts are rows of two tables, which the services of a
coprocessor share. A computation is keyed by its tenant, its output handle and the
transaction it is of, a ciphertext by its tenant, its handle and its version.

## Main definitions

* `Computation`, `Ciphertext`, `Database` — the tables.
* `Database.insertComputation`, `Database.insertCiphertext` — insertions, which keep what is there.
* `Database.tenantRows` — the computations of one tenant.
* `Computation.toOp` — the operation of a row.
-/

namespace Fhevm.Worker

open Foundation

/-- The key of a computation within its tenant. -/
abbrev OutputKey := Handle × Handle

/-- A row of `computations`. Times are in microseconds. -/
structure Computation where
  tenantId : ℤ
  outputHandle : Handle
  dependencies : List (List UInt8)
  fheOperation : ℤ
  isScalar : Bool
  isAllowed : Bool
  transactionId : Handle
  scheduleOrder : ℕ
  isCompleted : Bool := false
  completedAt : Option ℕ := none
  isError : Bool := false
  errorMessage : Option String := none
  uncomputableCounter : ℕ := 1
deriving DecidableEq, Repr

namespace Computation

def outputKey (c : Computation) : OutputKey := (c.outputHandle, c.transactionId)

def key (c : Computation) : ℤ × OutputKey := (c.tenantId, c.outputKey)

end Computation

/-- A row of `ciphertexts`. -/
structure Ciphertext where
  tenantId : ℤ
  handle : Handle
  ciphertext : List UInt8
  ciphertextVersion : ℤ
  ciphertextType : ℤ
deriving DecidableEq, Repr

def Ciphertext.key (c : Ciphertext) : ℤ × Handle × ℤ := (c.tenantId, c.handle, c.ciphertextVersion)

def currentCiphertextVersion : ℤ := 0

structure Database where
  computations : Table Computation.key
  ciphertexts : Table Ciphertext.key

namespace Database

def insertComputation (db : Database) (c : Computation) : Database :=
  { db with computations := db.computations.insert c }

def insertCiphertext (db : Database) (c : Ciphertext) : Database :=
  { db with ciphertexts := db.ciphertexts.insert c }

/-- The computations of a tenant. -/
def tenantRows (db : Database) (tenantId : ℤ) : List Computation :=
  db.computations.rowsWhere fun key => decide (key.1 = tenantId)

end Database

end Fhevm.Worker

/-! ## The operation of a computation

The worker reads the operands of a computation off its dependencies and checks
them. A dependency is a scalar or the handle of a ciphertext. -/

namespace Fhevm.Worker

open Scheduler

variable {R : Type}

/-- The operands of a row. -/
def Computation.inputs (c : Computation) (fheOp : SupportedFheOperations) :
    List (DFGTaskInput R) :=
  c.dependencies.mapIdx fun idx dh =>
    if isOperandScalar fheOp c.isScalar idx then .value (.scalar dh) else .dependence dh

/-- The operation of a row. A row with a number that is no operation is a panic. -/
def Computation.toOp (c : Computation) : Except OperationFailure (DFGOp R) :=
  match SupportedFheOperations.tryFrom c.fheOperation with
  | none => .error .panic
  | some fheOp => do
    checkFheOperandTypes c.fheOperation c.dependencies
      (isScalarOpVec fheOp c.isScalar c.dependencies.length)
    return ⟨c.outputHandle, fheOp, c.inputs fheOp, c.isAllowed⟩

end Fhevm.Worker
