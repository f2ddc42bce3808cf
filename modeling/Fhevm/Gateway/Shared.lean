import Fhevm.Gateway.Ballot
import Fhevm.Gateway.Eip712

/-!
# What the consensus contracts share

Checks that several contracts of the gateway make before they take a request or a
response.

## Main definitions

* `SharedError` — their errors.
* `pause`, `unpause`, `whenNotPaused` — requests can be stopped.
* `recoverSigner` — the signer of a digest.
-/

namespace Fhevm.Gateway

open Foundation

inductive SharedError
  | check (e : GatewayConfigChecks.Error)
  | enforcedPause
  | expectedPause
  | notPauserOrGatewayConfig (notPauserOrGatewayConfig : Address)
  | notOwnerOrGatewayConfig (notOwnerOrGatewayConfig : Address)
  | feeNotCollected
  | ecdsaInvalidSignature
  | overflow
deriving DecidableEq, Repr

abbrev SharedResult := Except SharedError

section Checks

variable (D : GatewayDeployment)

def whenNotPaused (paused : Bool) : SharedResult Unit := require (paused = false) .enforcedPause

/-- `pause()`, where the pauser set answers whether the sender is a pauser. -/
def pause (tx : GatewayTx) (isPauser paused : Bool) : SharedResult Bool := do
  require (¬ (isPauser = false ∧ tx.sender ≠ D.gatewayConfigAddress))
    (.notPauserOrGatewayConfig tx.sender)
  require (paused = false) .enforcedPause
  return true

def unpause (tx : GatewayTx) (paused : Bool) : SharedResult Bool := do
  require (¬ (tx.sender ≠ tx.config.owner ∧ tx.sender ≠ D.gatewayConfigAddress))
    (.notOwnerOrGatewayConfig tx.sender)
  require (paused = true) .expectedPause
  return false

/-- The payment contract takes the fee from the sender, or reverts. -/
def collectFee (collected : Bool) : SharedResult Unit := require (collected = true) .feeNotCollected

/-- `ECDSA.recover` -/
def recoverSigner (digest : Bytes32) (signature : Bytes) : SharedResult Address :=
  match D.recover digest signature with
  | some signer => .ok signer
  | none => .error .ecdsaInvalidSignature

end Checks

@[simp] theorem recoverSigner_eq_ok {D : GatewayDeployment} {digest : Bytes32} {signature : Bytes}
    {signer : Address} :
    recoverSigner D digest signature = .ok signer ↔ D.recover digest signature = some signer := by
  unfold recoverSigner
  split <;> simp_all

end Fhevm.Gateway
