import Fhevm.Host.Computation

/-!
# The contracts of a host chain

Accounts call the access control list, the executor and the input verifier in any
order, in any number of transactions. The transient storage of all contracts is
cleared at the end of a transaction. A call that fails is rolled back.

## Main definitions

* `hostChain` — the contracts as one system.
* `Returns` — an operation of a run returned a handle.
* `Touched`, `SlotsApart` — the permissions that a run reads or writes, and that no two of
  them share a slot.
-/

namespace Fhevm.Host

open Foundation Contract FHEVMExecutor

/-! ## The system -/

/-- A call of a contract, or the end of a transaction. The executor does not call the access
control list but in its operations. -/
inductive HostCall (D : Deployment)
  | acl (ctx : Context) (call : ACLCall) (external : ctx.sender ≠ D.fhevmExecutorAdd)
  | executor (ctx : Context) (call : ExecutorCall)
  | verifyInput (context : ContextUserInputs) (inputHandle : Bytes32) (inputProof : Bytes)
  | cleanProofCache
  | endTransaction

inductive HostOutput
  | acl (events : List ACLEvent)
  | executor (result : Bytes32) (event : TfheEvent)
  | verified (handle : Bytes32)
  | none
deriving DecidableEq, Repr

/-- The deployed contracts. The coprocessors that sign inputs do not change. -/
structure HostConfig where
  deployment : Deployment
  signatures : SignatureScheme
  isSigner : Address → Bool
  threshold : Nat

def HostConfig.init (K : HostConfig) : HostState where
  acl := ACLState.init
  hcu := HCUStorage.init
  verifier := ⟨K.isSigner, K.threshold, TransientSet.empty⟩
  counterRand := 0

def HostState.endTransaction (s : HostState) : HostState where
  acl := { s.acl with transient := TransientSet.empty }
  hcu := HCUStorage.init
  verifier := { s.verifier with transient := TransientSet.empty }
  counterRand := s.counterRand

def hostChain (K : HostConfig) : Contract (HostCall K.deployment) HostState HostError HostOutput where
  call
    | .acl ctx call _, s => do
      let (events, acl) ← aclCall K.deployment ctx s.acl call
      return (.acl events, { s with acl := acl })
    | .executor ctx call, s => do
      let ((result, event), s) ← executorCall K.deployment K.signatures ctx s call
      return (.executor result event, s)
    | .verifyInput context inputHandle inputProof, s => do
      let (handle, verifier) ← Host.verifyInput K.deployment K.signatures context inputHandle
        inputProof s.verifier
      return (.verified handle, { s with verifier := verifier })
    | .cleanProofCache, s => .ok (.none, { s with verifier := Host.cleanProofCache s.verifier })
    | .endTransaction, s => .ok (.none, s.endTransaction)

abbrev hostAfter (K : HostConfig) (calls : List (HostCall K.deployment)) : HostState :=
  (hostChain K).exec K.init calls

variable {K : HostConfig}

theorem hostAfter_cons {i : HostCall K.deployment} {past : List (HostCall K.deployment)} :
    hostAfter K (i :: past) = (hostChain K).step i (hostAfter K past) := rfl

/-! ## Steps -/

theorem acl_eq_ok {ctx : Context} {call : ACLCall}
    {external : ctx.sender ≠ K.deployment.fhevmExecutorAdd}
    {s s' : HostState} {o : HostOutput} :
    (hostChain K).call (.acl ctx call external) s = .ok (o, s') ↔
      ∃ events acl, aclCall K.deployment ctx s.acl call = .ok (events, acl) ∧ o = .acl events ∧
        s' = { s with acl := acl } := by
  simp only [hostChain, bind_eq_ok, pure_eq_ok]
  constructor
  · rintro ⟨⟨events, acl⟩, hcall, heq⟩
    cases heq
    exact ⟨events, acl, hcall, rfl, rfl⟩
  · rintro ⟨events, acl, hcall, rfl, rfl⟩
    exact ⟨_, hcall, rfl⟩

theorem executor_eq_ok {ctx : Context} {call : ExecutorCall} {s s' : HostState} {o : HostOutput} :
    (hostChain K).call (.executor ctx call) s = .ok (o, s') ↔
      ∃ result event, executorCall K.deployment K.signatures ctx s call =
        .ok ((result, event), s') ∧ o = .executor result event := by
  simp only [hostChain, bind_eq_ok, pure_eq_ok]
  constructor
  · rintro ⟨⟨⟨result, event⟩, s₁⟩, hcall, heq⟩
    cases heq
    exact ⟨result, event, hcall, rfl⟩
  · rintro ⟨result, event, hcall, rfl⟩
    exact ⟨_, hcall, rfl⟩

theorem verifyInput_eq_ok {context : ContextUserInputs} {inputHandle : Bytes32} {inputProof : Bytes}
    {s s' : HostState} {o : HostOutput} :
    (hostChain K).call (.verifyInput context inputHandle inputProof) s = .ok (o, s') ↔
      ∃ handle verifier, Host.verifyInput K.deployment K.signatures context inputHandle inputProof
        s.verifier = .ok (handle, verifier) ∧ o = .verified handle ∧
          s' = { s with verifier := verifier } := by
  simp only [hostChain, bind_eq_ok, pure_eq_ok]
  constructor
  · rintro ⟨⟨handle, verifier⟩, hcall, heq⟩
    cases heq
    exact ⟨handle, verifier, hcall, rfl, rfl⟩
  · rintro ⟨handle, verifier, hcall, rfl, rfl⟩
    exact ⟨_, hcall, rfl⟩

/-- An operation of the run returned the handle to its caller. -/
def Returns (K : HostConfig) (past : List (HostCall K.deployment)) (ctx : Context)
    (call : ExecutorCall) (result : Bytes32) : Prop :=
  ∃ event s', executorCall K.deployment K.signatures ctx (hostAfter K past) call =
    .ok ((result, event), s')

/-- A successful operation allows its result to the caller. -/
theorem executorCall_effect {past : List (HostCall K.deployment)} {ctx : Context}
    {call : ExecutorCall}
    {result : Bytes32} {event : TfheEvent} {s' : HostState}
    (h : executorCall K.deployment K.signatures ctx (hostAfter K past) call =
      .ok ((result, event), s')) :
    s'.acl = (hostAfter K past).allowed K.deployment ctx.sender result ∧
      ∀ operand ∈ call.operands,
        isAllowed K.deployment operand ctx.sender (hostAfter K past).acl = true := by
  cases hinput : call.isInput with
  | true =>
    cases call with
    | verifyInput inputHandle userAddress inputProof inputType =>
      obtain ⟨-, -, -, -, hacl, -⟩ := verifyInput_ok h
      exact ⟨hacl, by simp [ExecutorCall.operands]⟩
    | _ => cases hinput
  | false =>
    obtain ⟨-, -, c, hc, hperforms⟩ := executorCall_ok hinput h
    have hoperands : c.operands = call.operands := by
      simp only [computation, Option.bind_eq_bind, Option.bind_eq_some_iff] at hc
      obtain ⟨_, -, _, -, hc⟩ := hc
      cases hc
      rfl
    exact ⟨hperforms.acl_eq, hoperands ▸ hperforms.operands_allowed⟩

/-! ## Slots of permissions -/

/-- The permissions that a call reads or writes in transient storage. -/
def Touches (K : HostConfig) (i : HostCall K.deployment) (past : List (HostCall K.deployment))
    (p : Bytes32 × Address) : Prop :=
  match i with
  | .acl ctx (.allow handle _) _ => p = (handle, ctx.sender)
  | .acl ctx (.allowForDecryption handlesList) _ => p.1 ∈ handlesList ∧ p.2 = ctx.sender
  | .acl ctx (.allowTransient handle account) _ => p = (handle, ctx.sender) ∨ p = (handle, account)
  | .executor ctx call => p.2 = ctx.sender ∧ (p.1 ∈ call.operands ∨ Returns K past ctx call p.1)
  | _ => False

/-- The permissions that a run reads or writes in transient storage. -/
def Touched (K : HostConfig) (calls : List (HostCall K.deployment)) : Set (Bytes32 × Address) :=
  {p | ∃ i past, Ran calls i past ∧ Touches K i past p}

/-- The permissions of the set and of the run have slots of their own, behind those that list
them. -/
structure SlotsApart (K : HostConfig) (calls : List (HostCall K.deployment))
    (P : Set (Bytes32 × Address)) : Prop where
  injOn : Set.InjOn (fun p => permissionKey K.deployment p.1 p.2) (Touched K calls ∪ P)
  large : ∀ p ∈ Touched K calls ∪ P,
    calls.length < (permissionKey K.deployment p.1 p.2).toNat

theorem SlotsApart.mono {calls : List (HostCall K.deployment)} {P Q : Set (Bytes32 × Address)}
    (h : SlotsApart K calls P) (hsub : Q ⊆ P) : SlotsApart K calls Q where
  injOn := h.injOn.mono (Set.union_subset_union_right _ hsub)
  large p hp := h.large p (Set.union_subset_union_right _ hsub hp)

theorem Touched.mono {past calls : List (HostCall K.deployment)} (hs : past <:+ calls) :
    Touched K past ⊆ Touched K calls := by
  rintro p ⟨i, before, hran, htouch⟩
  exact ⟨i, before, hran.of_suffix hs, htouch⟩

/-! ## A small chain -/

/-- A stand-in for the hash function that is easy to evaluate. -/
def multiplicativeHash (bytes : Bytes) : Bytes32 :=
  BitVec.ofNat 256 (bytes.foldl (fun hash byte =>
    (hash * 0x9e3779b97f4a7c15f39cc0605cedc8341082276bf3a27251f86c6a11d0c18e95 + byte.toNat + 1) %
      2 ^ 256) 0)

def sampleConfig : HostConfig where
  deployment := ⟨multiplicativeHash, 1, 2, 8009⟩
  signatures := ⟨id, fun _ _ => none⟩
  isSigner _ := false
  threshold := 1

/-- Calls of an account in block 1. -/
def sampleContext (sender : Address) : Context := ⟨sender, 1, 1, 0, 0, fun _ => false⟩

end Fhevm.Host
