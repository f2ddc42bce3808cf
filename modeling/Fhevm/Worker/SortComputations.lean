import Fhevm.Common.Types
import Fhevm.Foundation.Contract
import Fhevm.Foundation.HashMap
import Fhevm.Foundation.Toposort
import Fhevm.Sdk.Eip712

/-!
# Sorting a batch of computations

The computations of a request are sorted before they are recorded. They are checked one by one,
ordered by the positions of the computations that they depend on, and then taken in passes: a pass
takes what can be computed and leaves the others to the next one.

## Main definitions

* `AsyncComputation` — a computation of a request, with its operands.
* `outputHandles`, `scanComputations` — the checks, with the handles that the database has to have.
* `Pass`, `passes` — the passes, until nothing is left or nothing can be taken.
* `sortComputationsByDependencies` — the sorted batch.
-/

namespace Fhevm.Worker

open Foundation

/-! ## Requests -/

/-- An operand: a ciphertext, or a scalar in clear. -/
inductive Input
  | inputHandle (handle : Handle)
  | scalar (bytes : Handle)
deriving DecidableEq, Repr

structure AsyncComputation where
  operation : ℤ
  outputHandle : Handle
  /-- An operand may be missing from the message. -/
  inputs : List (Option Input)
deriving DecidableEq, Repr

/-- What is wrong with a batch. -/
inductive SortError
  | fhevmError (e : FhevmError)
  | duplicateOutputHandleInBatch (handle : String)
  | ciphertextHandleLongerThan256Bytes
  | ciphertextHandleMustBeAtLeast1Byte (handle : String)
  | outputHandleIsAlsoInputHandle (handle : String)
  | computationInputIsUndefined (computationOutputHandle : String) (computationInputsIndex : ℕ)
  | ciphertextComputationDependencyLoopDetected
      (uncomputableOutputHandle uncomputableHandleDependency : String)
deriving DecidableEq, Repr

def hexHandle (handle : Handle) : String := String.ofList ('0' :: 'x' :: Sdk.hexEncode handle)

def checkValidCiphertextHandle (inp : Handle) : Except SortError Unit :=
  if 256 < inp.length then .error .ciphertextHandleLongerThan256Bytes
  else if inp = [] then .error (.ciphertextHandleMustBeAtLeast1Byte (hexHandle inp))
  else .ok ()

/-! ## The checks -/

/-- The position of every output handle, from a position on. -/
def outputHandles : ℕ → HashMap Handle ℕ → List AsyncComputation →
    Except SortError (HashMap Handle ℕ)
  | _, handles, [] => .ok handles
  | idx, handles, comp :: input => do
    checkValidCiphertextHandle comp.outputHandle
    require ((handles.get? comp.outputHandle).isNone)
      (.duplicateOutputHandleInBatch (hexHandle comp.outputHandle))
    outputHandles (idx + 1) (handles.insert comp.outputHandle idx) input

section Scan

variable (handles : HashMap Handle ℕ) (idx : ℕ) (comp : AsyncComputation)
  (fheOp : SupportedFheOperations)

/-- An operand at a position. It adds a dependency inside the batch, or a handle of the database. -/
def scanInput (depIdx : ℕ) (deps : List ℕ) (handlesToCheckInDb : Finset Handle) :
    Option Input → Except SortError (List ℕ × Finset Handle)
  | some (.inputHandle ih) => do
    checkValidCiphertextHandle ih
    require (ih ≠ comp.outputHandle) (.outputHandleIsAlsoInputHandle (hexHandle ih))
    match handles.get? ih with
    | some dep => pure (deps ++ [dep], handlesToCheckInDb)
    | none => pure (deps, insert ih handlesToCheckInDb)
  | some (.scalar sc) => do
    checkValidCiphertextHandle sc
    require (depIdx = 1 ∨ fheOp.doesHaveMoreThanOneScalar = true)
      (.fhevmError (.fheOperationOnlySecondOperandCanBeScalar depIdx 1))
    pure (deps, handlesToCheckInDb)
  | none => .error (.computationInputIsUndefined (hexHandle comp.outputHandle) idx)

def scanInputs : ℕ → List ℕ → Finset Handle → List (Option Input) →
    Except SortError (List ℕ × Finset Handle)
  | _, deps, handlesToCheckInDb, [] => .ok (deps, handlesToCheckInDb)
  | depIdx, deps, handlesToCheckInDb, ih :: inputs => do
    let scanned ← scanInput handles idx comp fheOp depIdx deps handlesToCheckInDb ih
    scanInputs (depIdx + 1) scanned.1 scanned.2 inputs

end Scan

def parseOperation (operation : ℤ) : Except SortError SupportedFheOperations :=
  match SupportedFheOperations.tryFrom operation with
  | some fheOp => .ok fheOp
  | none => .error (.fhevmError (.unknownFheOperation operation))

/-- The computations with their dependencies, the last one in the batch first. -/
def scanComputations (handles : HashMap Handle ℕ) : ℕ → Finset Handle → List AsyncComputation →
    Except SortError (List (AsyncComputation × List ℕ) × Finset Handle)
  | _, handlesToCheckInDb, [] => .ok ([], handlesToCheckInDb)
  | idx, handlesToCheckInDb, comp :: input => do
    let fheOp ← parseOperation comp.operation
    let scanned ← scanInputs handles idx comp fheOp 0 [] handlesToCheckInDb comp.inputs
    let thisDeps := (scanned.1.mergeSort fun a b => decide (a ≤ b)).reverse
    let rest ← scanComputations handles (idx + 1) scanned.2 input
    pure ((comp, thisDeps) :: rest.1, rest.2)

/-! ## The passes -/

def AsyncComputation.inputHandles (comp : AsyncComputation) : List Handle :=
  comp.inputs.filterMap fun
    | some (.inputHandle ih) => some ih
    | _ => none

/-- What a pass over the computations has done. -/
structure Pass where
  res : List AsyncComputation
  simulationCompletedOutputs : Finset Handle
  progressMadeInIteration : Bool
  newComputationDependencies : List (AsyncComputation × List ℕ)
  /-- The first computation that could not be taken, with the first handle that it misses. -/
  firstUncomputable : Option (Handle × Handle)

namespace Pass

variable (handlesToCheckInDb : Finset Handle)

/-- The first handle of a computation that is neither in the database nor computed yet. -/
def missingHandle (completed : Finset Handle) (comp : AsyncComputation) : Option Handle :=
  comp.inputHandles.find? fun ih => ih ∉ handlesToCheckInDb ∧ ih ∉ completed

def next (p : Pass) (dep : AsyncComputation × List ℕ) : Pass :=
  match missingHandle handlesToCheckInDb p.simulationCompletedOutputs dep.1 with
  | none =>
    { p with
      progressMadeInIteration := true
      simulationCompletedOutputs := insert dep.1.outputHandle p.simulationCompletedOutputs
      res := p.res ++ [dep.1] }
  | some ih =>
    { p with
      newComputationDependencies := p.newComputationDependencies ++ [dep]
      firstUncomputable := p.firstUncomputable.or (some (dep.1.outputHandle, ih)) }

def run (p : Pass) (deps : List (AsyncComputation × List ℕ)) : Pass :=
  deps.foldl (next handlesToCheckInDb) p

/-- What happens to one computation, and then to the others. -/
theorem run_cons (p : Pass) (dep : AsyncComputation × List ℕ)
    (deps : List (AsyncComputation × List ℕ)) :
    p.run handlesToCheckInDb (dep :: deps) =
      (p.next handlesToCheckInDb dep).run handlesToCheckInDb deps := rfl

/-- Every computation is taken or left to the next pass. -/
theorem length_run (p : Pass) (deps : List (AsyncComputation × List ℕ)) :
    (p.run handlesToCheckInDb deps).res.length +
        (p.run handlesToCheckInDb deps).newComputationDependencies.length =
      p.res.length + p.newComputationDependencies.length + deps.length := by
  induction deps generalizing p with
  | nil => rfl
  | cons dep deps ih =>
    rw [run_cons, ih, next]
    split <;> simp <;> omega

/-- A pass makes progress when it takes a computation. -/
theorem progress_run (p : Pass) (deps : List (AsyncComputation × List ℕ)) :
    p.res.length ≤ (p.run handlesToCheckInDb deps).res.length ∧
      ((p.run handlesToCheckInDb deps).progressMadeInIteration = true ↔
        p.progressMadeInIteration = true ∨
          p.res.length < (p.run handlesToCheckInDb deps).res.length) := by
  induction deps generalizing p with
  | nil => simp [run]
  | cons dep deps ih =>
    obtain ⟨hle, hprogress⟩ := ih (p.next handlesToCheckInDb dep)
    rw [run_cons]
    unfold next at hle hprogress ⊢
    split at hle <;> rename_i hmissing <;> simp only [hmissing] at hprogress ⊢
    · simp only [List.length_append, List.length_singleton] at hle hprogress
      grind
    · exact ⟨hle, hprogress⟩

/-- Nothing has been done yet. -/
def start (res : List AsyncComputation) (completed : Finset Handle) : Pass :=
  ⟨res, completed, false, [], none⟩

theorem length_lt_of_progress {res : List AsyncComputation} {completed : Finset Handle}
    {deps : List (AsyncComputation × List ℕ)}
    (h : ((start res completed).run handlesToCheckInDb deps).progressMadeInIteration = true) :
    ((start res completed).run handlesToCheckInDb deps).newComputationDependencies.length <
      deps.length := by
  have hlength := length_run handlesToCheckInDb (start res completed) deps
  obtain ⟨-, hprogress⟩ := progress_run handlesToCheckInDb (start res completed) deps
  have hlt := (hprogress.mp h).resolve_left (by simp [start])
  rw [show (start res completed).newComputationDependencies.length = 0 from rfl] at hlength
  omega

end Pass

/-- A loop is reported when a pass takes nothing. -/
def loopDetected (p : Pass) : SortError :=
  let uncomputable := p.firstUncomputable.getD ([], [])
  .ciphertextComputationDependencyLoopDetected (hexHandle uncomputable.1) (hexHandle uncomputable.2)

def passes (handlesToCheckInDb : Finset Handle) (res : List AsyncComputation)
    (completed : Finset Handle) (deps : List (AsyncComputation × List ℕ)) :
    Except SortError (List AsyncComputation) :=
  let p := (Pass.start res completed).run handlesToCheckInDb deps
  if p.progressMadeInIteration = true then
    if p.newComputationDependencies = [] then .ok p.res
    else passes handlesToCheckInDb p.res p.simulationCompletedOutputs p.newComputationDependencies
  else .error (loopDetected p)
termination_by deps.length
decreasing_by
  next hprogress _ => exact Pass.length_lt_of_progress _ hprogress

/-- The sorted batch, with the handles to check for in the database. -/
def sortComputationsByDependencies (input : List AsyncComputation) :
    Except SortError (List AsyncComputation × Finset Handle) := do
  let handles ← outputHandles 0 .empty input
  let scanned ← scanComputations handles 0 ∅ input
  -- the least dependencies come first
  let res ← passes scanned.2 [] ∅ (scanned.1.mergeSort fun a b => decide (a.2 ≤ b.2))
  pure (res, scanned.2)

end Fhevm.Worker
