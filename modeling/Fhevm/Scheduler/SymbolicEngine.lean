import Fhevm.Scheduler.Rerandomise

/-!
# A symbolic FHE library

Ciphertexts are terms that record how they were made, so two of them are equal
only when they were made the same way. It is the ideal instance of the FHE
library on which concrete inputs are run.

## Main definitions

* `Term` — symbolic ciphertexts.
* `symbolicEngine` — the engine that builds terms.
-/

namespace Fhevm.Scheduler

/-- A symbolic ciphertext; `nil` and `cons` list the terms a term was made from. -/
inductive Term
  | input (bytes : List UInt8)
  | nil
  | cons (type : FheTypes) (head tail : Term)
  | rerandomised (old : Term) (transactionId : Handle) (componentId : ℕ) (context : Term)
      (call : ℕ)
  | result (operation : ℤ) (operands : Term)
deriving DecidableEq, Repr

def Term.ofList : List (FheTypes × Term) → Term
  | [] => .nil
  | (t, c) :: cs => .cons t c (ofList cs)

/-- The type with a given number. -/
def FheTypes.ofNum : ℤ → Option FheTypes
  | 0 => some .fheBool
  | 1 => some .fheUint4
  | 2 => some .fheUint8
  | 3 => some .fheUint16
  | 4 => some .fheUint32
  | 5 => some .fheUint64
  | 6 => some .fheUint128
  | 7 => some .fheUint160
  | 8 => some .fheUint256
  | 9 => some .fheBytes64
  | 10 => some .fheBytes128
  | 11 => some .fheBytes256
  | _ => none

abbrev SymbolicSeed := ReRandomizationContext Term × ℕ

/-- The term that re-randomising a term under a seed gives. -/
def Term.refresh (_ : FheTypes) (c : Term) (seed : SymbolicSeed) : Term :=
  .rerandomised c seed.1.transactionId seed.1.componentId (.ofList seed.1.ciphertexts) seed.2

/-- Operands of one type, or a ciphertext with a scalar, are accepted. -/
def symbolicOperation (operation : ℤ) :
    List (SupportedFheCiphertexts Term) → Except FhevmError (SupportedFheCiphertexts Term)
  | [.enc t a] => .ok (.enc t (.result operation (.ofList [(t, a)])))
  | [.enc t a, .scalar b] => .ok (.enc t (.result operation (.ofList [(t, a), (t, .input b)])))
  | [.enc t a, .enc t' b] =>
    if t = t' then .ok (.enc t (.result operation (.ofList [(t, a), (t', b)])))
    else .error .badInputs
  | [.scalar b, .scalar _] => .ok (.enc .fheUint8 (.result operation (.input b)))
  | _ => .error .badInputs

/-- The FHE library that records what it is asked to do. -/
def symbolicEngine : FheEngine Term SymbolicSeed FhevmError where
  performFheOperation := symbolicOperation
  compress
    | .enc t (.input bytes) => (t.num, bytes)
    | .enc t _ => (t.num, [])
    | .scalar bytes => (200, bytes)
  decompress type bytes :=
    match FheTypes.ofNum type with
    | some t => .ok (.enc t (.input bytes))
    | none => .error (.unknownFheType type)
  unknownEnumValue := .unknownFheOperation
  nextSeed context k := .ok (context, k)
  reRandomize t c seed := .ok (Term.refresh t c seed)

end Fhevm.Scheduler
