import Fhevm.Common.Evm
import Fhevm.Foundation.System

/-!
# The providers that manage nonces

A provider gives each transaction of its account the next nonce. It asks the node for the number of
transactions of the account once, and counts on from there. After an error it forgets the nonce, and
asks again. The calls of its clones run at the same time, and share the nonce behind a lock.

## Main definitions

* `NonceManagedProvider` — the providers of the KMS connector and of the coprocessor.
* `transactionCount` — the next nonce of the account on the node.
* `ProviderState`, `provider` — the calls that are in progress.
* `InStep` — the provider hands out next what the node expects.
-/

namespace Fhevm

open Foundation

/-! ## The node -/

/-- The first nonce with which the node has not taken a transaction. -/
def transactionCount (taken : Finset ℕ) : ℕ :=
  ((List.range (taken.card + 1)).find? fun n => n ∉ taken).getD 0

theorem find?_transactionCount (taken : Finset ℕ) :
    (List.range (taken.card + 1)).find? (fun n => n ∉ taken) = some (transactionCount taken) := by
  unfold transactionCount
  cases hfind : (List.range (taken.card + 1)).find? fun n => n ∉ taken with
  | some n => rfl
  | none =>
    have hsub : Finset.range (taken.card + 1) ⊆ taken := by
      intro n hn
      simpa using List.find?_eq_none.mp hfind n (List.mem_range.mpr (Finset.mem_range.mp hn))
    have hcard := Finset.card_le_card hsub
    rw [Finset.card_range] at hcard
    omega

theorem transactionCount_notMem (taken : Finset ℕ) : transactionCount taken ∉ taken := by
  simpa using (List.find?_range_eq_some.mp (find?_transactionCount taken)).1

theorem mem_of_lt_transactionCount {taken : Finset ℕ} {n : ℕ} (h : n < transactionCount taken) :
    n ∈ taken := by
  simpa using (List.find?_range_eq_some.mp (find?_transactionCount taken)).2.2 n h

theorem transactionCount_eq {taken : Finset ℕ} {n : ℕ} (h : n ∉ taken)
    (hbelow : ∀ m < n, m ∈ taken) : transactionCount taken = n := by
  apply le_antisymm
  · by_contra hlt
    exact h (mem_of_lt_transactionCount (not_le.mp hlt))
  · by_contra hlt
    exact transactionCount_notMem taken (hbelow _ (not_le.mp hlt))

/-! ## Data -/

inductive NonceManagedProvider
  | kmsConnector
  | coprocessor (signerAddress : Option Address)

inductive SendFunction
  | sendTransaction
  | sendTransactionSync
deriving DecidableEq, Repr

namespace NonceManagedProvider

def Offers : NonceManagedProvider → SendFunction → Bool
  | .kmsConnector, _ => true
  | .coprocessor _, function => function = .sendTransaction

/-- Without a signer the provider sets no nonce. -/
def setsNonce : NonceManagedProvider → Bool
  | .kmsConnector => true
  | .coprocessor signerAddress => signerAddress.isSome

end NonceManagedProvider

/-- How far a call has come that has its nonce. -/
inductive SendStage
  | filling
  /-- The transaction is on its way, and then answered with success or with an error. -/
  | sent (answer : Option Bool)
  /-- The call has met an error, and waits for the lock. -/
  | failed
deriving DecidableEq, Repr

structure SendCall where
  function : SendFunction
  nonce : Option ℕ
  stage : SendStage
deriving DecidableEq, Repr

/-- `counting` is the call that holds the lock while it asks for the number of transactions, with the
answer of the node. `late` are the transactions on their way whose call has given up. -/
structure ProviderState where
  nonceManager : Option ℕ
  counting : Option (SendFunction × Option ℕ)
  calls : List SendCall
  late : List (Option ℕ)
  taken : Finset ℕ

inductive ProviderInput
  /-- A call gets the lock, and the next nonce. -/
  | getNextNonce (function : SendFunction)
  /-- A call gets the lock, and asks the node. -/
  | askCount (function : SendFunction)
  | answerCount
  | receiveCount
  | failCount
  /-- A call sets no nonce. -/
  | skipNonce (function : SendFunction)
  /-- The gas, the fees or the signature cannot be filled in. -/
  | failFill (call : ℕ)
  | send (call : ℕ)
  /-- The node takes the transaction, or rejects it. -/
  | process (call : ℕ) (takes : Bool)
  | processLate (transaction : ℕ) (takes : Bool)
  | succeed (call : ℕ)
  /-- The call gets an error. Its transaction can still arrive. -/
  | fail (call : ℕ) (arrives : Bool)
  | reset (call : ℕ)
deriving DecidableEq, Repr

/-! ## Steps -/

/-- The node with one more transaction, which gets the next nonce if it has none. -/
def takeNonce (taken : Finset ℕ) (nonce : Option ℕ) (takes : Bool) : Finset ℕ :=
  if takes then insert (nonce.getD (transactionCount taken)) taken else taken

namespace ProviderState

variable (P : NonceManagedProvider) (s : ProviderState)

def setStage (i : ℕ) (call : SendCall) (stage : SendStage) : ProviderState :=
  { s with calls := s.calls.set i { call with stage } }

def getNextNonce (function : SendFunction) : Option ProviderState := do
  guard (P.Offers function = true ∧ P.setsNonce = true ∧ s.counting = none)
  let nonce ← s.nonceManager
  return { s with
    nonceManager := some (nonce + 1)
    calls := s.calls ++ [⟨function, some (nonce + 1), .filling⟩] }

def askCount (function : SendFunction) : Option ProviderState := do
  guard (P.Offers function = true ∧ P.setsNonce = true ∧ s.counting = none)
  guard (s.nonceManager = none)
  return { s with counting := some (function, none) }

def answerCount : Option ProviderState := do
  let (function, count) ← s.counting
  guard (count = none)
  return { s with counting := some (function, some (transactionCount s.taken)) }

def receiveCount : Option ProviderState := do
  let (function, count) ← s.counting
  let nonce ← count
  return { s with
    nonceManager := some nonce
    counting := none
    calls := s.calls ++ [⟨function, some nonce, .filling⟩] }

/-- The call ends, and resets nothing. -/
def failCount : Option ProviderState := do
  let _ ← s.counting
  return { s with counting := none }

def skipNonce (function : SendFunction) : Option ProviderState := do
  guard (P.Offers function = true ∧ P.setsNonce = false)
  return { s with calls := s.calls ++ [⟨function, none, .filling⟩] }

/-- `send_transaction_sync` returns before the reset, where `send_transaction` gets to it. -/
def failFill (i : ℕ) : Option ProviderState := do
  let call ← s.calls[i]?
  guard (call.stage = .filling)
  match call.function with
  | .sendTransactionSync => return { s with calls := s.calls.eraseIdx i }
  | .sendTransaction => return s.setStage i call .failed

def send (i : ℕ) : Option ProviderState := do
  let call ← s.calls[i]?
  guard (call.stage = .filling)
  return s.setStage i call (.sent none)

def process (i : ℕ) (takes : Bool) : Option ProviderState := do
  let call ← s.calls[i]?
  guard (call.stage = .sent none)
  return { s.setStage i call (.sent (some takes)) with taken := takeNonce s.taken call.nonce takes }

def processLate (j : ℕ) (takes : Bool) : Option ProviderState := do
  let nonce ← s.late[j]?
  return { s with late := s.late.eraseIdx j, taken := takeNonce s.taken nonce takes }

def succeed (i : ℕ) : Option ProviderState := do
  let call ← s.calls[i]?
  guard (call.stage = .sent (some true))
  return { s with calls := s.calls.eraseIdx i }

def fail (i : ℕ) (arrives : Bool) : Option ProviderState := do
  let call ← s.calls[i]?
  match call.stage with
  | .sent answer =>
    return { s.setStage i call .failed with
      late := if answer = none ∧ arrives = true then s.late ++ [call.nonce] else s.late }
  | _ => none

def reset (i : ℕ) : Option ProviderState := do
  let call ← s.calls[i]?
  guard (call.stage = .failed ∧ s.counting = none)
  return { s with nonceManager := none, calls := s.calls.eraseIdx i }

def step : ProviderInput → Option ProviderState
  | .getNextNonce function => s.getNextNonce P function
  | .askCount function => s.askCount P function
  | .answerCount => s.answerCount
  | .receiveCount => s.receiveCount
  | .failCount => s.failCount
  | .skipNonce function => s.skipNonce P function
  | .failFill i => s.failFill i
  | .send i => s.send i
  | .process i takes => s.process i takes
  | .processLate j takes => s.processLate j takes
  | .succeed i => s.succeed i
  | .fail i arrives => s.fail i arrives
  | .reset i => s.reset i

end ProviderState

/-- The provider of an account that has made transactions before. -/
def provider (P : NonceManagedProvider) (taken : Finset ℕ) :
    System ProviderState ProviderInput where
  init := ⟨none, none, [], [], taken⟩
  step := ProviderState.step P

/-! ## The property -/

namespace ProviderState

/-- No call is in progress. -/
def Quiet (s : ProviderState) : Prop := s.calls = [] ∧ s.counting = none

/-- The nonce manager is empty, or hands out next what the node expects. -/
def InStep (s : ProviderState) : Prop :=
  ∀ nonce, s.nonceManager = some nonce → nonce + 1 = transactionCount s.taken

instance (s : ProviderState) : Decidable s.Quiet := inferInstanceAs (Decidable (_ ∧ _))

end ProviderState

end Fhevm
