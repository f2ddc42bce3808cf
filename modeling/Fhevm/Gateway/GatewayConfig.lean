import Fhevm.Foundation.Voting
import Fhevm.Common.Evm

/-!
# The gateway configuration

The registered KMS nodes, coprocessors, custodians and host chains, and the thresholds
of the consensus of the other contracts. The owner replaces whole lists of operators.

## Main definitions

* `Registry` — the lists, flags and records of one kind of operators.
* `GatewayConfigStorage` — the storage of the contract.
* `gatewayConfig` — the contract.
* `GatewayConfigChecks` — the checks that other contracts make on it.
* `Registry.ofList` — the registry of a list of operators.
-/

namespace Fhevm.Gateway

open Foundation

/-! ## Operators -/

/-- A KMS node, a coprocessor or a custodian. -/
structure Operator where
  txSenderAddress : Address
  signerAddress : Address
  url : String
deriving DecidableEq, Repr

/-- What is stored of one kind of operators, such as `isKmsTxSender`, `isKmsSigner`,
`kmsNodes`, `kmsTxSenderAddresses` and `kmsSignerAddresses`. -/
structure Registry where
  isTxSender : Address → Bool
  isSigner : Address → Bool
  operators : Address → Operator
  txSenderAddresses : List Address
  signerAddresses : List Address

namespace Registry

/-- The registry with all values at their defaults. -/
def empty : Registry where
  isTxSender _ := false
  isSigner _ := false
  operators _ := ⟨0, 0, ""⟩
  txSenderAddresses := []
  signerAddresses := []

/-- One turn of the loop that removes the operators. -/
def unregister (r : Registry) (addresses : Address × Address) : Registry :=
  { r with
    isTxSender := Function.update r.isTxSender addresses.1 false
    isSigner := Function.update r.isSigner addresses.2 false
    operators := Function.update r.operators addresses.1 ⟨0, 0, ""⟩ }

def clear (r : Registry) : Registry :=
  let r := (r.txSenderAddresses.zip r.signerAddresses).foldl unregister r
  { r with txSenderAddresses := [], signerAddresses := [] }

/-- One turn of the loop that registers the operators. -/
def register (r : Registry) (operator : Operator) : Registry where
  isTxSender := Function.update r.isTxSender operator.txSenderAddress true
  operators := Function.update r.operators operator.txSenderAddress operator
  txSenderAddresses := r.txSenderAddresses ++ [operator.txSenderAddress]
  isSigner := Function.update r.isSigner operator.signerAddress true
  signerAddresses := r.signerAddresses ++ [operator.signerAddress]

def registerAll (r : Registry) (operators : List Operator) : Registry :=
  operators.foldl register r

end Registry

/-! ## Data -/

structure GatewayConfigStorage where
  owner : Address
  pendingOwner : Address
  initializedVersion : Nat
  kms : Registry
  mpcThreshold : Nat
  publicDecryptionThreshold : Nat
  userDecryptionThreshold : Nat
  coprocessors : Registry
  isHostChainRegistered : Nat → Bool
  /-- The ids of the listed host chains. -/
  hostChains : List Nat
  custodians : Registry
  kmsGenThreshold : Nat
  coprocessorThreshold : Nat

def REINITIALIZER_VERSION : Nat := 4

def MAX_CHAIN_ID : Nat := 2 ^ 64 - 1

/-- The storage of the empty proxy that the contract is deployed on. -/
def GatewayConfigStorage.emptyProxy (owner : Address) : GatewayConfigStorage where
  owner := owner
  pendingOwner := 0
  initializedVersion := 1
  kms := .empty
  mpcThreshold := 0
  publicDecryptionThreshold := 0
  userDecryptionThreshold := 0
  coprocessors := .empty
  isHostChainRegistered _ := false
  hostChains := []
  custodians := .empty
  kmsGenThreshold := 0
  coprocessorThreshold := 0

inductive GatewayConfigError
  | ownableUnauthorizedAccount (account : Address)
  | ownableInvalidOwner (owner : Address)
  | invalidInitialization
  | notInitializingFromEmptyProxy
  | emptyKmsNodes
  | emptyCoprocessors
  | emptyCustodians
  | invalidHighMpcThreshold (mpcThreshold nKmsNodes : Nat)
  | invalidNullPublicDecryptionThreshold
  | invalidHighPublicDecryptionThreshold (publicDecryptionThreshold nKmsNodes : Nat)
  | invalidNullUserDecryptionThreshold
  | invalidHighUserDecryptionThreshold (userDecryptionThreshold nKmsNodes : Nat)
  | invalidNullKmsGenThreshold
  | invalidHighKmsGenThreshold (kmsGenThreshold nKmsNodes : Nat)
  | invalidNullCoprocessorThreshold
  | invalidHighCoprocessorThreshold (coprocessorThreshold nCoprocessors : Nat)
  | hostChainAlreadyRegistered (chainId : Nat)
  | invalidNullChainId
  | chainIdNotUint64 (chainId : Nat)
deriving DecidableEq, Repr

structure Thresholds where
  mpcThreshold : Nat
  publicDecryptionThreshold : Nat
  userDecryptionThreshold : Nat
  kmsGenThreshold : Nat
  coprocessorThreshold : Nat
deriving DecidableEq, Repr

abbrev ConfigResult := Except GatewayConfigError

/-! ## Thresholds -/

def setMpcThreshold (newMpcThreshold : Nat) (s : GatewayConfigStorage) :
    ConfigResult GatewayConfigStorage := do
  let nKmsNodes := s.kms.signerAddresses.length
  require (¬ newMpcThreshold ≥ nKmsNodes) (.invalidHighMpcThreshold newMpcThreshold nKmsNodes)
  return { s with mpcThreshold := newMpcThreshold }

/-- At least one vote, and no more than there are operators in the list. -/
def checkThreshold (newThreshold n : Nat) (null : GatewayConfigError)
    (high : Nat → Nat → GatewayConfigError) : ConfigResult Unit := do
  require (newThreshold ≠ 0) null
  require (¬ newThreshold > n) (high newThreshold n)

def setPublicDecryptionThreshold (newPublicDecryptionThreshold : Nat) (s : GatewayConfigStorage) :
    ConfigResult GatewayConfigStorage := do
  checkThreshold newPublicDecryptionThreshold s.kms.signerAddresses.length
    .invalidNullPublicDecryptionThreshold .invalidHighPublicDecryptionThreshold
  return { s with publicDecryptionThreshold := newPublicDecryptionThreshold }

def setUserDecryptionThreshold (newUserDecryptionThreshold : Nat) (s : GatewayConfigStorage) :
    ConfigResult GatewayConfigStorage := do
  checkThreshold newUserDecryptionThreshold s.kms.signerAddresses.length
    .invalidNullUserDecryptionThreshold .invalidHighUserDecryptionThreshold
  return { s with userDecryptionThreshold := newUserDecryptionThreshold }

def setCoprocessorThreshold (newCoprocessorThreshold : Nat) (s : GatewayConfigStorage) :
    ConfigResult GatewayConfigStorage := do
  checkThreshold newCoprocessorThreshold s.coprocessors.signerAddresses.length
    .invalidNullCoprocessorThreshold .invalidHighCoprocessorThreshold
  return { s with coprocessorThreshold := newCoprocessorThreshold }

def setKmsGenThreshold (newKmsGenThreshold : Nat) (s : GatewayConfigStorage) :
    ConfigResult GatewayConfigStorage := do
  checkThreshold newKmsGenThreshold s.kms.signerAddresses.length
    .invalidNullKmsGenThreshold .invalidHighKmsGenThreshold
  return { s with kmsGenThreshold := newKmsGenThreshold }

/-! ## Lists of operators -/

def setKmsNodes (newKmsNodes : List Operator) (newMpcThreshold newPublicDecryptionThreshold
    newUserDecryptionThreshold newKmsGenThreshold : Nat) (s : GatewayConfigStorage) :
    ConfigResult GatewayConfigStorage := do
  require (newKmsNodes ≠ []) .emptyKmsNodes
  let s := { s with kms := s.kms.registerAll newKmsNodes }
  let s ← setMpcThreshold newMpcThreshold s
  let s ← setPublicDecryptionThreshold newPublicDecryptionThreshold s
  let s ← setUserDecryptionThreshold newUserDecryptionThreshold s
  setKmsGenThreshold newKmsGenThreshold s

def setCoprocessors (newCoprocessors : List Operator) (newCoprocessorThreshold : Nat)
    (s : GatewayConfigStorage) : ConfigResult GatewayConfigStorage := do
  require (newCoprocessors ≠ []) .emptyCoprocessors
  setCoprocessorThreshold newCoprocessorThreshold
    { s with coprocessors := s.coprocessors.registerAll newCoprocessors }

def setCustodians (newCustodians : List Operator) (s : GatewayConfigStorage) :
    ConfigResult GatewayConfigStorage := do
  require (newCustodians ≠ []) .emptyCustodians
  return { s with custodians := s.custodians.registerAll newCustodians }

/-! ## Entry points -/

def onlyOwner (sender : Address) (s : GatewayConfigStorage) : ConfigResult Unit :=
  require (s.owner = sender) (.ownableUnauthorizedAccount sender)

/-- `reinitializer(REINITIALIZER_VERSION)` -/
def reinitializer (s : GatewayConfigStorage) : ConfigResult GatewayConfigStorage := do
  require (s.initializedVersion < REINITIALIZER_VERSION) .invalidInitialization
  return { s with initializedVersion := REINITIALIZER_VERSION }

def initializeGatewayConfig (initialThresholds : Thresholds)
    (initialKmsNodes initialCoprocessors initialCustodians : List Operator)
    (s : GatewayConfigStorage) : ConfigResult GatewayConfigStorage := do
  require (s.initializedVersion = 1) .notInitializingFromEmptyProxy
  let s ← reinitializer s
  require (s.owner ≠ 0) (.ownableInvalidOwner s.owner)
  let s ← setKmsNodes initialKmsNodes initialThresholds.mpcThreshold
    initialThresholds.publicDecryptionThreshold initialThresholds.userDecryptionThreshold
    initialThresholds.kmsGenThreshold s
  let s ← setCoprocessors initialCoprocessors initialThresholds.coprocessorThreshold s
  setCustodians initialCustodians s

def updateKmsNodes (sender : Address) (newKmsNodes : List Operator) (newMpcThreshold
    newPublicDecryptionThreshold newUserDecryptionThreshold newKmsGenThreshold : Nat)
    (s : GatewayConfigStorage) : ConfigResult GatewayConfigStorage := do
  onlyOwner sender s
  setKmsNodes newKmsNodes newMpcThreshold newPublicDecryptionThreshold newUserDecryptionThreshold
    newKmsGenThreshold { s with kms := s.kms.clear }

def reinitializeV3 (sender : Address) (newKmsNodes : List Operator) (s : GatewayConfigStorage) :
    ConfigResult GatewayConfigStorage := do
  let s ← reinitializer s
  updateKmsNodes sender newKmsNodes s.mpcThreshold s.publicDecryptionThreshold
    s.userDecryptionThreshold s.kmsGenThreshold s

def updateCoprocessors (sender : Address) (newCoprocessors : List Operator)
    (newCoprocessorThreshold : Nat) (s : GatewayConfigStorage) :
    ConfigResult GatewayConfigStorage := do
  onlyOwner sender s
  setCoprocessors newCoprocessors newCoprocessorThreshold
    { s with coprocessors := s.coprocessors.clear }

def updateCustodians (sender : Address) (newCustodians : List Operator)
    (s : GatewayConfigStorage) : ConfigResult GatewayConfigStorage := do
  onlyOwner sender s
  setCustodians newCustodians { s with custodians := s.custodians.clear }

def addHostChain (sender : Address) (chainId : Nat) (s : GatewayConfigStorage) :
    ConfigResult GatewayConfigStorage := do
  onlyOwner sender s
  require (chainId ≠ 0) .invalidNullChainId
  require (¬ chainId > MAX_CHAIN_ID) (.chainIdNotUint64 chainId)
  require (s.isHostChainRegistered chainId = false) (.hostChainAlreadyRegistered chainId)
  return { s with
    hostChains := s.hostChains ++ [chainId]
    isHostChainRegistered := Function.update s.isHostChainRegistered chainId true }

inductive GatewayConfigCall
  | initializeFromEmptyProxy (initialThresholds : Thresholds)
      (initialKmsNodes initialCoprocessors initialCustodians : List Operator)
  | reinitializeV3 (newKmsNodes : List Operator)
  | updateKmsNodes (newKmsNodes : List Operator) (newMpcThreshold newPublicDecryptionThreshold
      newUserDecryptionThreshold newKmsGenThreshold : Nat)
  | updateCoprocessors (newCoprocessors : List Operator) (newCoprocessorThreshold : Nat)
  | updateCustodians (newCustodians : List Operator)
  | updateMpcThreshold (newMpcThreshold : Nat)
  | updatePublicDecryptionThreshold (newPublicDecryptionThreshold : Nat)
  | updateUserDecryptionThreshold (newUserDecryptionThreshold : Nat)
  | updateKmsGenThreshold (newKmsGenThreshold : Nat)
  | updateCoprocessorThreshold (newCoprocessorThreshold : Nat)
  | addHostChain (chainId : Nat)
  | transferOwnership (newOwner : Address)
  | acceptOwnership
  | renounceOwnership
deriving DecidableEq, Repr

/-- What a call by a sender does. -/
def configCall (sender : Address) :
    GatewayConfigCall → GatewayConfigStorage → ConfigResult GatewayConfigStorage
  | .initializeFromEmptyProxy thresholds kmsNodes coprocessors custodians, s =>
    initializeGatewayConfig thresholds kmsNodes coprocessors custodians s
  | .reinitializeV3 newKmsNodes, s => reinitializeV3 sender newKmsNodes s
  | .updateKmsNodes newKmsNodes mpc publicDecryption userDecryption kmsGen, s =>
    updateKmsNodes sender newKmsNodes mpc publicDecryption userDecryption kmsGen s
  | .updateCoprocessors newCoprocessors threshold, s =>
    updateCoprocessors sender newCoprocessors threshold s
  | .updateCustodians newCustodians, s => updateCustodians sender newCustodians s
  | .updateMpcThreshold threshold, s => do onlyOwner sender s; setMpcThreshold threshold s
  | .updatePublicDecryptionThreshold threshold, s => do
    onlyOwner sender s
    setPublicDecryptionThreshold threshold s
  | .updateUserDecryptionThreshold threshold, s => do
    onlyOwner sender s
    setUserDecryptionThreshold threshold s
  | .updateKmsGenThreshold threshold, s => do onlyOwner sender s; setKmsGenThreshold threshold s
  | .updateCoprocessorThreshold threshold, s => do
    onlyOwner sender s
    setCoprocessorThreshold threshold s
  | .addHostChain chainId, s => addHostChain sender chainId s
  | .transferOwnership newOwner, s => do
    onlyOwner sender s
    return { s with pendingOwner := newOwner }
  | .acceptOwnership, s => do
    require (s.pendingOwner = sender) (.ownableUnauthorizedAccount sender)
    return { s with owner := sender, pendingOwner := 0 }
  | .renounceOwnership, s => do
    onlyOwner sender s
    return { s with owner := 0, pendingOwner := 0 }

/-- The contract; a call comes with its sender. -/
def gatewayConfig :
    Contract (Address × GatewayConfigCall) GatewayConfigStorage GatewayConfigError Unit where
  call i s := do
    let s ← configCall i.1 i.2 s
    return ((), s)

/-! ## Checks of the other contracts -/

namespace GatewayConfigChecks

inductive Error
  | notKmsTxSender (txSenderAddress : Address)
  | notKmsSigner (signerAddress : Address)
  | notCoprocessorTxSender (txSenderAddress : Address)
  | notCoprocessorSigner (signerAddress : Address)
  | hostChainNotRegistered (chainId : Nat)
  | kmsSignerDoesNotMatchTxSender (signerAddress txSenderAddress : Address)
  | coprocessorSignerDoesNotMatchTxSender (signerAddress txSenderAddress : Address)
deriving DecidableEq, Repr

variable (config : GatewayConfigStorage)

def onlyKmsTxSender (sender : Address) : Except Error Unit :=
  require (config.kms.isTxSender sender = true) (.notKmsTxSender sender)

def onlyCoprocessorTxSender (sender : Address) : Except Error Unit :=
  require (config.coprocessors.isTxSender sender = true) (.notCoprocessorTxSender sender)

def onlyRegisteredHostChain (chainId : Nat) : Except Error Unit :=
  require (config.isHostChainRegistered chainId = true) (.hostChainNotRegistered chainId)

def checkKmsSignerMatchesTxSender (signerAddress txSenderAddress : Address) :
    Except Error Unit := do
  require (config.kms.isSigner signerAddress = true) (.notKmsSigner signerAddress)
  require ((config.kms.operators txSenderAddress).signerAddress = signerAddress)
    (.kmsSignerDoesNotMatchTxSender signerAddress txSenderAddress)

def checkCoprocessorSignerMatchesTxSender (signerAddress txSenderAddress : Address) :
    Except Error Unit := do
  require (config.coprocessors.isSigner signerAddress = true)
    (.notCoprocessorSigner signerAddress)
  require ((config.coprocessors.operators txSenderAddress).signerAddress = signerAddress)
    (.coprocessorSignerDoesNotMatchTxSender signerAddress txSenderAddress)

end GatewayConfigChecks

/-- The pair passes the checks on the sender and on the signer. -/
def Registry.AbleToVote (r : Registry) (operator : Address × Address) : Prop :=
  r.isTxSender operator.1 = true ∧ r.isSigner operator.2 = true ∧
    (r.operators operator.1).signerAddress = operator.2

theorem ableToVote_kms {config : GatewayConfigStorage} {txSender signer : Address} :
    config.kms.AbleToVote (txSender, signer) ↔
      GatewayConfigChecks.onlyKmsTxSender config txSender = .ok () ∧
        GatewayConfigChecks.checkKmsSignerMatchesTxSender config signer txSender = .ok () := by
  simp [Registry.AbleToVote, GatewayConfigChecks.onlyKmsTxSender,
    GatewayConfigChecks.checkKmsSignerMatchesTxSender]

theorem ableToVote_coprocessors {config : GatewayConfigStorage} {txSender signer : Address} :
    config.coprocessors.AbleToVote (txSender, signer) ↔
      GatewayConfigChecks.onlyCoprocessorTxSender config txSender = .ok () ∧
        GatewayConfigChecks.checkCoprocessorSignerMatchesTxSender config signer txSender =
          .ok () := by
  simp [Registry.AbleToVote, GatewayConfigChecks.onlyCoprocessorTxSender,
    GatewayConfigChecks.checkCoprocessorSignerMatchesTxSender]

end Fhevm.Gateway
