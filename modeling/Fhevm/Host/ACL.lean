import Fhevm.Foundation.TransientSet
import Fhevm.Foundation.BigEndian
import Fhevm.Host.Handle

/-!
# The access control list of the host chain

Which account may use which handle, for a transaction or for good, which handles
may be decrypted by everyone, and which delegations of decryption an account made.

## Main definitions

* `Deployment`, `Context` — the constants of a chain and what a call sees of it.
* `ACLState` — the storage of the contract and its transient storage.
* `isAllowed`, `allow`, `allowTransient`, `allowForDecryption` — permissions.
* `delegateForUserDecryption`, `revokeDelegationForUserDecryption` — delegations.
* `aclCall` — a call by an account.
-/

namespace Fhevm.Host

open Foundation

/-! ## The chain -/

/-- The hash function of the EVM, and the constants of the deployed contracts. -/
structure Deployment where
  keccak256 : Bytes → Bytes32
  aclAdd : Address
  fhevmExecutorAdd : Address
  chainid : BitVec 256

/-- The sender of a call, the block it is in, and the roles at that time. -/
structure Context where
  sender : Address
  blockNumber : Nat
  timestamp : Nat
  /-- `blockhash(block.number - 1)` -/
  blockhash : Bytes32
  owner : Address
  isPauser : Address → Bool

def wordBytes (x : Bytes32) : Bytes := BigEndian.encode 32 x.toNat

def addressBytes (a : Address) : Bytes := BigEndian.encode 20 a.toNat

@[simp] theorem length_wordBytes (x : Bytes32) : (wordBytes x).length = 32 :=
  BigEndian.length_encode _ _

theorem decode_wordBytes (x : Bytes32) : BigEndian.decode (wordBytes x) = x.toNat := by
  have hlt : x.toNat < 256 ^ 32 := x.isLt.trans_eq (by norm_num)
  rw [wordBytes, BigEndian.decode_encode, Nat.mod_eq_of_lt hlt]

@[simp] theorem ofNat_decode_wordBytes (x : Bytes32) :
    BitVec.ofNat 256 (BigEndian.decode (wordBytes x)) = x := by
  rw [decode_wordBytes, BitVec.ofNat_toNat, BitVec.setWidth_eq]

theorem wordBytes_injective : Function.Injective wordBytes := by
  intro x y h
  have hlt : ∀ z : Bytes32, z.toNat < 256 ^ 32 := fun z => z.isLt.trans_eq (by norm_num)
  exact BitVec.eq_of_toNat_eq (BigEndian.encode_injective (hlt x) (hlt y) h)

inductive HostError
  | enforcedPause
  | expectedPause
  | ownableUnauthorizedAccount (account : Address)
  | accountAlreadyBlocked (account : Address)
  | accountNotBlocked (account : Address)
  | alreadyDelegatedOrRevokedInSameBlock (delegator delegate contractAddress : Address)
      (blockNumber : Nat)
  | delegateCannotBeContractAddress (contractAddress : Address)
  | expirationDateAlreadySetToSameValue (delegator delegate contractAddress : Address)
      (expirationDate : Nat)
  | expirationDateBeforeOneHour
  | handlesListIsEmpty
  | notDelegatedYet (delegator delegate contractAddress : Address)
  | notPauser (sender : Address)
  | senderCannotBeContractAddress (contractAddress : Address)
  | senderCannotBeDelegate (delegate : Address)
  | senderNotAllowed (sender : Address)
  | senderDenied (sender : Address)
  | callerMustBeFHEVMExecutorContract
  | aclNotAllowed (handle : Bytes32) (account : Address)
  | divisionByZero
  | incompatibleTypes
  | invalidType
  | isNotScalar
  | notPowerOfTwo
  | scalarByteIsNotBoolean
  | unsupportedType
  | upperBoundAboveMaxTypeValue
  | hcuTransactionLimitExceeded
  | hcuTransactionDepthLimitExceeded
  | unsupportedOperation
  | onlyScalarOperationsAreSupported
  | invalidChainId
  | emptyInputProof
  | invalidIndex
  | deserializingInputProofFail
  | invalidHandleVersion
  | invalidInputHandle
  | zeroSignature
  | signatureThresholdNotReached (numSignatures : Nat)
  | invalidSigner (signerRecovered : Address)
  | signaturesVerificationFailed
  | ecdsaInvalidSignature
  | panic
deriving DecidableEq, Repr

/-- The outcome of a function of a host contract. -/
abbrev Result := Except HostError

/-! ## State -/

structure UserDecryptionDelegation where
  expirationDate : Nat
  lastBlockDelegateOrRevoke : Nat
  delegationCounter : Nat
deriving DecidableEq, Repr

structure ACLState where
  persistedAllowedPairs : Bytes32 → Address → Bool
  allowedForDecryption : Bytes32 → Bool
  userDecryptionDelegations : Address → Address → Address → UserDecryptionDelegation
  denyList : Address → Bool
  paused : Bool
  /-- The transient storage: the permissions of the current transaction. -/
  transient : TransientSet.Store 256

def ACLState.init : ACLState where
  persistedAllowedPairs _ _ := false
  allowedForDecryption _ := false
  userDecryptionDelegations _ _ _ := ⟨0, 0, 0⟩
  denyList _ := false
  paused := false
  transient := TransientSet.empty

inductive ACLEvent
  | allowed (caller account : Address) (handle : Bytes32)
  | allowedForDecryption (caller : Address) (handlesList : List Bytes32)
  | delegatedForUserDecryption (delegator delegate contractAddress : Address)
      (delegationCounter oldExpirationDate newExpirationDate : Nat)
  | revokedDelegationForUserDecryption (delegator delegate contractAddress : Address)
      (delegationCounter oldExpirationDate : Nat)
  | blockedAccount (account : Address)
  | unblockedAccount (account : Address)
  | paused (account : Address)
  | unpaused (account : Address)
deriving DecidableEq, Repr

variable (D : Deployment)

/-! ## Permissions -/

/-- The slot of a permission for the transaction. -/
def permissionKey (handle : Bytes32) (account : Address) : Bytes32 :=
  D.keccak256 (wordBytes handle ++ addressBytes account)

def allowedTransient (handle : Bytes32) (account : Address) (s : ACLState) : Bool :=
  TransientSet.contains (permissionKey D handle account) s.transient

def persistAllowed (handle : Bytes32) (account : Address) (s : ACLState) : Bool :=
  s.persistedAllowedPairs handle account

def isAllowed (handle : Bytes32) (account : Address) (s : ACLState) : Bool :=
  allowedTransient D handle account s || persistAllowed handle account s

def isAccountDenied (account : Address) (s : ACLState) : Bool := s.denyList account

def whenNotPaused (s : ACLState) : Result Unit := require (s.paused = false) .enforcedPause

def onlyOwner (ctx : Context) : Result Unit :=
  require (ctx.sender = ctx.owner) (.ownableUnauthorizedAccount ctx.sender)

/-- The checks on a sender that passes a permission on. -/
def checkSender (sender : Address) (handle : Bytes32) (s : ACLState) : Result Unit := do
  require (isAccountDenied sender s = false) (.senderDenied sender)
  require (isAllowed D handle sender s = true) (.senderNotAllowed sender)

def allow (ctx : Context) (handle : Bytes32) (account : Address) (s : ACLState) :
    Result (List ACLEvent × ACLState) := do
  whenNotPaused s
  checkSender D ctx.sender handle s
  return ([.allowed ctx.sender account handle],
    { s with
      persistedAllowedPairs := Function.update s.persistedAllowedPairs handle
        (Function.update (s.persistedAllowedPairs handle) account true) })

/-- The loop of `allowForDecryption`. -/
def allowHandlesForDecryption (sender : Address) : List Bytes32 → ACLState → Result ACLState
  | [], s => .ok s
  | handle :: handles, s => do
    require (isAllowed D handle sender s = true) (.senderNotAllowed sender)
    allowHandlesForDecryption sender handles
      { s with allowedForDecryption := Function.update s.allowedForDecryption handle true }

def allowForDecryption (ctx : Context) (handlesList : List Bytes32) (s : ACLState) :
    Result (List ACLEvent × ACLState) := do
  whenNotPaused s
  require (handlesList ≠ []) .handlesListIsEmpty
  require (isAccountDenied ctx.sender s = false) (.senderDenied ctx.sender)
  let s ← allowHandlesForDecryption D ctx.sender handlesList s
  return ([.allowedForDecryption ctx.sender handlesList], s)

/-- The executor may allow any handle, and does so for its results. -/
def allowTransient (sender : Address) (handle : Bytes32) (account : Address) (s : ACLState) :
    Result ACLState := do
  whenNotPaused s
  if sender ≠ D.fhevmExecutorAdd then
    checkSender D sender handle s
  return { s with transient := TransientSet.record (permissionKey D handle account) s.transient }

/-! ## Delegations -/

def setDelegation (s : ACLState) (delegator delegate contractAddress : Address)
    (delegation : UserDecryptionDelegation) : ACLState :=
  { s with
    userDecryptionDelegations := Function.update s.userDecryptionDelegations delegator
      (Function.update (s.userDecryptionDelegations delegator) delegate
        (Function.update (s.userDecryptionDelegations delegator delegate) contractAddress
          delegation)) }

def delegateForUserDecryption (ctx : Context) (delegate contractAddress : Address)
    (expirationDate : Nat) (s : ACLState) : Result (List ACLEvent × ACLState) := do
  whenNotPaused s
  -- the gateway's clock may be ahead by an hour
  require (¬ expirationDate < ctx.timestamp + 3600) .expirationDateBeforeOneHour
  let delegation := s.userDecryptionDelegations ctx.sender delegate contractAddress
  require (delegation.lastBlockDelegateOrRevoke ≠ ctx.blockNumber)
    (.alreadyDelegatedOrRevokedInSameBlock ctx.sender delegate contractAddress ctx.blockNumber)
  require (contractAddress ≠ ctx.sender) (.senderCannotBeContractAddress contractAddress)
  require (delegate ≠ ctx.sender) (.senderCannotBeDelegate delegate)
  require (delegate ≠ contractAddress) (.delegateCannotBeContractAddress contractAddress)
  let oldExpirationDate := delegation.expirationDate
  require (oldExpirationDate ≠ expirationDate)
    (.expirationDateAlreadySetToSameValue ctx.sender delegate contractAddress oldExpirationDate)
  let delegationCounter ← increment 64 delegation.delegationCounter .panic
  return ([.delegatedForUserDecryption ctx.sender delegate contractAddress delegationCounter
      oldExpirationDate expirationDate],
    setDelegation s ctx.sender delegate contractAddress
      { expirationDate := expirationDate
        lastBlockDelegateOrRevoke := ctx.blockNumber % 2 ^ 64
        delegationCounter := delegationCounter })

def revokeDelegationForUserDecryption (ctx : Context) (delegate contractAddress : Address)
    (s : ACLState) : Result (List ACLEvent × ACLState) := do
  whenNotPaused s
  let delegation := s.userDecryptionDelegations ctx.sender delegate contractAddress
  require (delegation.lastBlockDelegateOrRevoke ≠ ctx.blockNumber)
    (.alreadyDelegatedOrRevokedInSameBlock ctx.sender delegate contractAddress ctx.blockNumber)
  let oldExpirationDate := delegation.expirationDate
  require (oldExpirationDate ≠ 0) (.notDelegatedYet ctx.sender delegate contractAddress)
  let delegationCounter ← increment 64 delegation.delegationCounter .panic
  return ([.revokedDelegationForUserDecryption ctx.sender delegate contractAddress
      delegationCounter oldExpirationDate],
    setDelegation s ctx.sender delegate contractAddress
      { expirationDate := 0
        lastBlockDelegateOrRevoke := ctx.blockNumber % 2 ^ 64
        delegationCounter := delegationCounter })

/-! ## Administration -/

def pause (ctx : Context) (s : ACLState) : Result (List ACLEvent × ACLState) := do
  require (ctx.isPauser ctx.sender = true) (.notPauser ctx.sender)
  whenNotPaused s
  return ([.paused ctx.sender], { s with paused := true })

def unpause (ctx : Context) (s : ACLState) : Result (List ACLEvent × ACLState) := do
  onlyOwner ctx
  require (s.paused = true) .expectedPause
  return ([.unpaused ctx.sender], { s with paused := false })

def blockAccount (ctx : Context) (account : Address) (s : ACLState) :
    Result (List ACLEvent × ACLState) := do
  onlyOwner ctx
  require (s.denyList account = false) (.accountAlreadyBlocked account)
  return ([.blockedAccount account], { s with denyList := Function.update s.denyList account true })

def unblockAccount (ctx : Context) (account : Address) (s : ACLState) :
    Result (List ACLEvent × ACLState) := do
  onlyOwner ctx
  require (s.denyList account = true) (.accountNotBlocked account)
  return ([.unblockedAccount account],
    { s with denyList := Function.update s.denyList account false })

def cleanTransientStorage (s : ACLState) : ACLState :=
  { s with transient := TransientSet.clear s.transient }

/-! ## Calls -/

inductive ACLCall
  | allow (handle : Bytes32) (account : Address)
  | allowForDecryption (handlesList : List Bytes32)
  | allowTransient (handle : Bytes32) (account : Address)
  | delegateForUserDecryption (delegate contractAddress : Address) (expirationDate : Nat)
  | revokeDelegationForUserDecryption (delegate contractAddress : Address)
  | pause
  | unpause
  | blockAccount (account : Address)
  | unblockAccount (account : Address)
  | cleanTransientStorage
deriving DecidableEq, Repr

/-- What a call of the contract does. -/
def aclCall (ctx : Context) (s : ACLState) : ACLCall → Result (List ACLEvent × ACLState)
  | .allow handle account => allow D ctx handle account s
  | .allowForDecryption handlesList => allowForDecryption D ctx handlesList s
  | .allowTransient handle account => do
    let s ← allowTransient D ctx.sender handle account s
    return ([], s)
  | .delegateForUserDecryption delegate contractAddress expirationDate =>
    delegateForUserDecryption ctx delegate contractAddress expirationDate s
  | .revokeDelegationForUserDecryption delegate contractAddress =>
    revokeDelegationForUserDecryption ctx delegate contractAddress s
  | .pause => pause ctx s
  | .unpause => unpause ctx s
  | .blockAccount account => blockAccount ctx account s
  | .unblockAccount account => unblockAccount ctx account s
  | .cleanTransientStorage => .ok ([], cleanTransientStorage s)

/-- The loop of `allowForDecryption` checks every handle against the same permissions. -/
theorem allowHandlesForDecryption_eq_ok {sender : Address} {handles : List Bytes32}
    {s s' : ACLState} :
    allowHandlesForDecryption D sender handles s = .ok s' ↔
      (∀ handle ∈ handles, isAllowed D handle sender s = true) ∧
        s' = { s with
          allowedForDecryption := fun handle => decide (handle ∈ handles) ||
            s.allowedForDecryption handle } := by
  induction handles generalizing s with
  | nil =>
    constructor
    · intro h
      cases h
      exact ⟨by simp, by simp⟩
    · rintro ⟨-, rfl⟩
      simp [allowHandlesForDecryption]
  | cons handle handles ih =>
    have hsame : ∀ h, isAllowed D h sender { s with
        allowedForDecryption := Function.update s.allowedForDecryption handle true } =
          isAllowed D h sender s := fun _ => rfl
    have hfun : (fun h => decide (h ∈ handles) ||
        Function.update s.allowedForDecryption handle true h) =
          fun h => decide (h ∈ handle :: handles) || s.allowedForDecryption h := by
      funext h
      by_cases hh : h = handle <;> simp [hh]
    simp only [allowHandlesForDecryption, bind_eq_ok, require_eq_ok, exists_const, ih, hsame,
      List.mem_cons, forall_eq_or_imp, hfun, and_assoc]

theorem allowTransient_eq_ok {sender account : Address} {handle : Bytes32} {s s' : ACLState} :
    allowTransient D sender handle account s = .ok s' ↔
      (s.paused = false ∧ (sender ≠ D.fhevmExecutorAdd →
        isAccountDenied sender s = false ∧ isAllowed D handle sender s = true)) ∧
        s' = { s with
          transient := TransientSet.record (permissionKey D handle account) s.transient } := by
  by_cases hsender : sender = D.fhevmExecutorAdd
  · simp only [allowTransient, whenNotPaused, hsender, ne_eq, not_true, if_false, bind_eq_ok,
      require_eq_ok, pure_eq_ok, exists_const]
    grind
  · simp only [allowTransient, whenNotPaused, checkSender, hsender, ne_eq, not_false_eq_true,
      if_true, bind_eq_ok, require_eq_ok, pure_eq_ok, exists_const]
    grind

end Fhevm.Host
