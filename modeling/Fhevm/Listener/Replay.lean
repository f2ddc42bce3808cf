import Fhevm.Host.HostChain
import Fhevm.Listener.TfheEvents
import Fhevm.Worker.Database

/-!
# Replaying the events of a host chain

The events of the executor are recorded as computations, and the computations are
evaluated one after the other, each when the ciphertexts of its operands are there.

## Main definitions

* `replay` — the evaluation of the computations of some events, in order.
* `InDependenceOrder` — operands are computed before they are used.
* `Typed` — ciphertexts are of the type that their handle tells.
-/

namespace Fhevm.Listener

open Foundation Host Worker Scheduler

variable {R : Type}

/-! ## The coprocessor path -/

/-- The ciphertexts of handles. -/
abbrev Ciphertexts (R : Type) := Handle → Option (SupportedFheCiphertexts R)

inductive ReplayError
  | operation (e : OperationFailure)
  | missingInput (handle : Handle)
deriving DecidableEq, Repr

/-- A failure of the operation itself. -/
def ofOperation {α : Type} : Except OperationFailure α → Except ReplayError α :=
  Except.mapError .operation

/-- The value of an operand. -/
def operandValue (store : Ciphertexts R) :
    DFGTaskInput R → Except ReplayError (SupportedFheCiphertexts R)
  | .value ct => .ok ct
  | .compressed _ _ => .error (.operation .panic)
  | .dependence handle =>
    match store handle with
    | some ct => .ok ct
    | none => .error (.missingInput handle)

/-- Check a computation, evaluate it and keep its result. -/
def replayComputation (lib : TfheLibrary R) (store : Ciphertexts R) (c : Worker.Computation) :
    Except ReplayError (Ciphertexts R) := do
  let op ← ofOperation c.toOp
  let inputs ← op.inputs.mapM (operandValue store)
  let ct ← ofOperation (performFheOperation lib op.fheOp.toInt inputs)
  return Function.update store c.outputHandle (some ct)

def replayEvent (lib : TfheLibrary R) (tenantId : ℤ) (now : ℕ) (store : Ciphertexts R)
    (log : LogTfhe) : Except ReplayError (Ciphertexts R) :=
  match insertTfheEvent tenantId now log with
  | some c => replayComputation lib store c
  | none => .ok store

/-- The events of a log, in order. -/
def replay (lib : TfheLibrary R) (tenantId : ℤ) (now : ℕ) (inputs : Ciphertexts R)
    (logs : List LogTfhe) : Except ReplayError (Ciphertexts R) :=
  logs.foldlM (replayEvent lib tenantId now) inputs

/-! ## Order and types -/

/-- The operands of an event that are handles. -/
def operandsOf : TfheEvent → List Bytes32
  | .binary _ _ lhs rhs scalarByte _ => if scalarByte = 0x01 then [lhs] else [lhs, rhs]
  | .unary _ _ ct _ => [ct]
  | .fheIfThenElse _ control ifTrue ifFalse _ => [control, ifTrue, ifFalse]
  | .cast _ ct _ _ => [ct]
  | _ => []

/-- The handle that an event tells to compute. -/
def computedBy : TfheEvent → Option Bytes32
  | .binary _ _ _ _ _ result => some result
  | .unary _ _ _ result => some result
  | .fheIfThenElse _ _ _ _ result => some result
  | .cast _ _ _ result => some result
  | .trivialEncrypt _ _ _ result => some result
  | .fheRand _ _ _ result => some result
  | .fheRandBounded _ _ _ _ result => some result
  | .verifyInput _ _ _ _ _ _ => none

/-- Every operand is available or computed by an event before. -/
def InDependenceOrder (available : Set Bytes32) : List LogTfhe → Prop
  | [] => True
  | log :: logs => (∀ handle ∈ operandsOf log.event, handle ∈ available) ∧
      InDependenceOrder (available ∪ {handle | computedBy log.event = some handle}) logs

/-- The ciphertext is of the type that the handle tells. -/
def HasTypeOf (handle : Handle) (ct : SupportedFheCiphertexts R) : Prop :=
  ∃ t c, ct = .enc t c ∧ getCtType handle = .ok (t.num : ℤ)

def Typed (store : Ciphertexts R) : Prop :=
  ∀ handle ct, store handle = some ct → HasTypeOf handle ct

theorem Typed.update {store : Ciphertexts R} (h : Typed store) {handle : Handle}
    {ct : SupportedFheCiphertexts R} (hct : HasTypeOf handle ct) :
    Typed (Function.update store handle (some ct)) := by
  intro handle' ct' hget
  by_cases heq : handle' = handle
  · subst heq
    rw [Function.update_self, Option.some.injEq] at hget
    exact hget ▸ hct
  · rw [Function.update_of_ne heq] at hget
    exact h handle' ct' hget

/-! ## The type byte -/

/-- The coprocessor reads the type of a handle where the contracts read it. -/
theorem getCtType_wordBytes (handle : Bytes32) :
    getCtType (wordBytes handle) = .ok ((byteAt handle 30).toNat : ℤ) := by
  have hlength : (wordBytes handle).length = handleLen := BigEndian.length_encode 32 _
  have hbyte : (wordBytes handle)[30]? = some (UInt8.ofNat (handle.toNat / 256 % 256)) := by
    rw [wordBytes, BigEndian.getElem?_encode (by norm_num)]
    norm_num
  obtain ⟨hlt, hget⟩ := List.getElem?_eq_some_iff.mp hbyte
  have hnat : (UInt8.ofNat (handle.toNat / 256 % 256)).toNat = (byteAt handle 30).toNat := by
    rw [byteAt, BitVec.extractLsb'_toNat, Nat.shiftRight_eq_div_pow]
    simp
  simp only [getCtType, dif_pos hlength, List.get_eq_getElem, hget, hnat]

theorem getCtType_of_typeOf {handle : Bytes32} {t : FheType} (h : typeOf handle = some t) :
    getCtType (wordBytes handle) = .ok (t.toNat : ℤ) := by
  rw [getCtType_wordBytes, FheType.ofNat?_eq_some.mp h]

/-- The ciphertext of an operand is of the type that the executor read. -/
theorem Typed.operand {store : Ciphertexts R} (h : Typed store) {handle : Bytes32} {t : FheType}
    (htype : typeOf handle = some t) (havailable : (store (wordBytes handle)).isSome) :
    ∃ t' c, store (wordBytes handle) = some (.enc t' c) ∧ t'.num = t.toNat := by
  obtain ⟨ct, hct⟩ := Option.isSome_iff_exists.mp havailable
  obtain ⟨t', c, rfl, hnum⟩ := h _ ct hct
  rw [getCtType_of_typeOf htype, Except.ok.injEq] at hnum
  exact ⟨t', c, hct, by exact_mod_cast hnum.symm⟩

end Fhevm.Listener
