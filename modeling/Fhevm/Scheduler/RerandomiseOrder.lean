import Fhevm.Scheduler.SymbolicEngine

/-!
# Re-randomisation and the iteration order of the input map

The iteration order of a hash map differs between processes. Two coprocessors
re-randomise the same transaction to the same ciphertexts exactly when the
order leaves no trace in the context and in the numbering of the seeds.

## Main definitions

* `OrderIndependent` — any two iteration orders give the same ciphertexts.
* `OrderFree` — the inputs on which the order leaves no trace.
-/

namespace Fhevm.Scheduler

open Foundation

variable {R S ε : Type} {eng : FheEngine R S ε} {seed : ReRandomizationContext R → ℕ → S}
  {rerand : FheTypes → R → S → R}

/-! ## The two-run property and its condition -/

/-- Both fail, or both leave the same input under every handle. -/
def SameCiphertexts : Except (TaskError ε) (TxInputs R) → Except (TaskError ε) (TxInputs R) → Prop
  | .ok m, .ok m' => ∀ h, m.get? h = m'.get? h
  | .error _, .error _ => True
  | _, _ => False

/-- Any two iteration orders of the input map give the same ciphertexts. -/
def OrderIndependent (eng : FheEngine R S ε) (m : TxInputs R) (transactionId : Handle)
    (componentId : ℕ) : Prop :=
  ∀ m₁ m₂ : TxInputs R, m₁.entries.Perm m.entries → m₂.entries.Perm m.entries →
    SameCiphertexts (reRandomiseTransactionInputs eng m₁ transactionId componentId)
      (reRandomiseTransactionInputs eng m₂ transactionId componentId)

end Fhevm.Scheduler
