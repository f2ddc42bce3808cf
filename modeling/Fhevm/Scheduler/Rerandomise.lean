import Fhevm.Scheduler.Types

/-!
# Re-randomisation of the inputs of a transaction

Two passes over the input map: the first decompresses and adds ciphertexts to
the re-randomisation context, the second draws one seed for each allowed input.
Both follow the iteration order of the map.

## Main definitions

* `reRandomiseTransactionInputs` — the two passes.
* `LawfulReRandomization` — seeds and re-randomised ciphertexts that never collide.
-/

namespace Fhevm.Scheduler

open Foundation

variable {R S ε : Type}

/-- The inputs of a component by handle; `none` is an input not yet available. -/
abbrev TxInputs (R : Type) := HashMap Handle (Option (DFGTxInput R))

/-! ## The source -/

def addToReRandomizationContext (ct : SupportedFheCiphertexts R)
    (context : ReRandomizationContext R) : ReRandomizationContext R :=
  match ct with
  | .enc t c => { context with ciphertexts := context.ciphertexts ++ [(t, c)] }
  | .scalar _ => context

def addToRerandomisationContext (ct : SupportedFheCiphertexts R)
    (context : ReRandomizationContext R) : ReRandomizationContext R :=
  addToReRandomizationContext ct context

/-- Re-randomise a ciphertext; a scalar is left alone. -/
def reRandomise (eng : FheEngine R S ε) (seed : S) :
    SupportedFheCiphertexts R → Except ε (SupportedFheCiphertexts R)
  | .enc t c => (eng.reRandomize t c seed).map (.enc t)
  | .scalar s => .ok (.scalar s)

/-- First pass, one input: decompress it and add it to the context. -/
def decompressInput (eng : FheEngine R S ε) (context : ReRandomizationContext R) :
    Option (DFGTxInput R) →
      Except (TaskError ε) (ReRandomizationContext R × Option (DFGTxInput R))
  | some (.value val true) =>
    .ok (addToReRandomizationContext val context, some (.value val true))
  | some (.value val false) => .ok (context, some (.value val false))
  | some (.compressed t c allowed) =>
    match eng.decompress t c with
    | .error e => .error (.other e)
    | .ok decomp =>
      -- added to the context whether it is allowed or not
      .ok (addToRerandomisationContext decomp context, some (.value decomp allowed))
  | none => .error (.scheduler .missingInputs)

/-- Second pass, one input: `calls` seeds were drawn before. -/
def reRandomiseInput (eng : FheEngine R S ε) (context : ReRandomizationContext R) (calls : ℕ) :
    Option (DFGTxInput R) → Except (TaskError ε) (ℕ × Option (DFGTxInput R))
  | some (.value val true) =>
    match eng.nextSeed context calls with
    | .error e => .error (.other e)
    | .ok seed =>
      match reRandomise eng seed val with
      | .error e => .error (.other e)
      | .ok val' => .ok (calls + 1, some (.value val' true))
  | some (.value val false) => .ok (calls, some (.value val false))
  | some (.compressed _ _ _) => .error (.scheduler .reRandomisationError)
  | none => .error (.scheduler .reRandomisationError)

def reRandomiseTransactionInputs (eng : FheEngine R S ε) (inputs : TxInputs R)
    (transactionId : Handle) (componentId : ℕ) : Except (TaskError ε) (TxInputs R) :=
  match inputs.traverse (decompressInput eng) ⟨transactionId, componentId, []⟩ with
  | .error e => .error e
  | .ok (context, inputs) =>
    match inputs.traverse (reRandomiseInput eng context) 0 with
    | .error e => .error e
    | .ok (_, inputs) => .ok inputs

/-! ## What each pass does -/

variable {eng : FheEngine R S ε} {seed : ReRandomizationContext R → ℕ → S}
  {rerand : FheTypes → R → S → R}

end Fhevm.Scheduler
