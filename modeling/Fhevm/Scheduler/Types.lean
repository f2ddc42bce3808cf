import Fhevm.Common.Types
import Fhevm.Foundation.HashMap

/-!
# Scheduler types

Task inputs, task results and errors of the dataflow scheduler, and the FHE
library it calls. The library is not part of the repository, so it enters as a
record of functions; `R` stands for its ciphertexts, `S` for re-randomisation
seeds and `ε` for the errors it and the evaluator return.

## Main definitions

* `SchedulerError`, `TaskError` — the scheduler's own errors, and any error of a task.
* `FheEngine` — evaluation, compression and re-randomisation.
* `DFGTxInput`, `DFGTaskInput`, `DFGOp`, `TaskResult`, `DFGTxResult`.
-/

namespace Fhevm.Scheduler

inductive SchedulerError
  | cyclicDependence
  | dataflowGraphError
  | missingInputs
  | reRandomisationError
  | schedulerError
deriving DecidableEq, Repr

/-- The text of an error, as stored with a failed computation. -/
def SchedulerError.message : SchedulerError → String
  | cyclicDependence => "Dependence cycle in dataflow graph"
  | dataflowGraphError => "Inconsistent dataflow graph error"
  | missingInputs => "Missing inputs"
  | reRandomisationError => "Re-randomisation error"
  | schedulerError => "Generic scheduler error"

/-- An error of a task: the scheduler's own or one passed up from a callee. -/
inductive TaskError (ε : Type)
  | scheduler (e : SchedulerError)
  | other (e : ε)
deriving DecidableEq, Repr

/-- What a re-randomisation seed depends on: the transaction, the component and
the ciphertexts in the order in which they were added. -/
structure ReRandomizationContext (R : Type) where
  transactionId : Handle
  componentId : ℕ
  ciphertexts : List (FheTypes × R)
deriving DecidableEq, Repr

/-- The functions the scheduler calls in the FHE library and the evaluator. -/
structure FheEngine (R S ε : Type) where
  performFheOperation :
    ℤ → List (SupportedFheCiphertexts R) → Except ε (SupportedFheCiphertexts R)
  compress : SupportedFheCiphertexts R → ℤ × List UInt8
  decompress : ℤ → List UInt8 → Except ε (SupportedFheCiphertexts R)
  /-- The error for a number that is no operation. -/
  unknownEnumValue : ℤ → ε
  /-- The seed that the given call of `next_seed` returns. -/
  nextSeed : ReRandomizationContext R → ℕ → Except ε S
  reRandomize : FheTypes → R → S → Except ε R

section

variable (R ε : Type)

/-- An input of a component, with the flag telling that it is an allowed handle. -/
inductive DFGTxInput
  | value (ct : SupportedFheCiphertexts R) (allowed : Bool)
  | compressed (type : ℤ) (ct : List UInt8) (allowed : Bool)
deriving DecidableEq, Repr

/-- An operand of an operation. -/
inductive DFGTaskInput
  | value (ct : SupportedFheCiphertexts R)
  | compressed (type : ℤ) (ct : List UInt8)
  | dependence (handle : Handle)
deriving DecidableEq, Repr

structure DFGOp where
  outputHandle : Handle
  fheOp : SupportedFheOperations
  inputs : List (DFGTaskInput R)
  isAllowed : Bool
deriving DecidableEq, Repr

/-- What taking an operation out of its place leaves behind. -/
instance : Inhabited (DFGOp R) := ⟨⟨[], .fheTrivialEncrypt, [], false⟩⟩

structure TaskResult where
  ct : SupportedFheCiphertexts R
  compressedCt : Option (ℤ × List UInt8)
  isAllowed : Bool
deriving DecidableEq, Repr

/-- A result handed to the database: the compressed ciphertext or the error. -/
structure DFGTxResult where
  handle : Handle
  transactionId : Handle
  compressedCt : Except (TaskError ε) (ℤ × List UInt8)

end

/-- The result of one operation. -/
abbrev OpOutcome (R ε : Type) := Except (TaskError ε) (TaskResult R)

end Fhevm.Scheduler
