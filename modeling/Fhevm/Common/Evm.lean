import Fhevm.Foundation.Contract

/-!
# Values of the EVM

Words and addresses are bit vectors. Unsigned integers that a contract counts
with are natural numbers; the checked arithmetic of Solidity reverts where they
leave their width.

## Main definitions

* `Address`, `Bytes32`, `Bytes` — the value types of the contracts.
* `increment` — the checked `++`.
* `update₂` — a write to a mapping of mappings.
* `RpcError` — the errors of a request.
* `TransactionReceipt` — the receipt of a transaction that is in a block.
-/

namespace Fhevm

open Foundation

/-- An account. -/
abbrev Address := BitVec 160

abbrev Bytes32 := BitVec 256

abbrev Bytes := List UInt8

/-- `n++` on an unsigned integer of `w` bits: a panic where it overflows. -/
def increment {ε : Type} (w n : Nat) (panic : ε) : Except ε Nat := do
  require (n + 1 < 2 ^ w) panic
  return n + 1

@[simp] theorem increment_eq_ok {ε : Type} {w n m : Nat} {panic : ε} :
    increment w n panic = .ok m ↔ n + 1 < 2 ^ w ∧ m = n + 1 := by
  simp only [increment, bind_eq_ok, require_eq_ok, pure_eq_ok, exists_and_left]
  grind

/-- `m[a][b] = c` on a mapping of mappings. -/
def update₂ {α β γ : Type*} [DecidableEq α] [DecidableEq β] (m : α → β → γ) (a : α) (b : β)
    (c : γ) : α → β → γ :=
  Function.update m a (Function.update (m a) b c)

theorem update₂_apply {α β γ : Type*} [DecidableEq α] [DecidableEq β] {m : α → β → γ} {a a' : α}
    {b b' : β} {c : γ} : update₂ m a b c a' b' = if a' = a ∧ b' = b then c else m a' b' := by
  unfold update₂
  by_cases ha : a' = a
  · subst ha
    simp [Function.update_apply]
  · simp [ha]

@[simp] theorem update₂_self {α β γ : Type*} [DecidableEq α] [DecidableEq β] {m : α → β → γ}
    {a : α} {b : β} {c : γ} : update₂ m a b c a b = c := by
  simp [update₂]

end Fhevm

/-! ## Answers of a node

What the library that talks to a node makes of its answers to a transaction. -/

namespace Fhevm

/-- The errors of the transport. Which of the others can be retried is up to the library. -/
inductive TransportErrorKind
  | backendGone
  | other (isRetryErr : Bool)
deriving DecidableEq, Repr

/-- The errors of a request. An error response carries a payload of type `ε`. -/
inductive RpcError (ε : Type)
  | errorResp (payload : ε)
  | nullResp
  | unsupportedFeature
  | localUsageError
  | serError
  | deserError
  | transport (kind : TransportErrorKind)
deriving DecidableEq, Repr

def RpcError.asErrorResp {ε : Type} : RpcError ε → Option ε
  | .errorResp payload => some payload
  | _ => none

structure TransactionReceipt where
  status : Bool
  transactionHash : Bytes32
  blockNumber : Option ℕ
deriving DecidableEq, Repr

end Fhevm
