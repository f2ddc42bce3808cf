import Fhevm.Foundation.TransientSet
import Fhevm.Host.HostChain
import Fhevm.Host.InputVerifier
import Fhevm.Host.InputProofs

/-!
# The transient storage within a transaction

The permissions of a transaction and the remembered proofs are cleared through the lists that are
kept with them, between the user operations that are bundled in the transaction. Nothing else may be
left in the transient storage, so that what follows runs as in a transaction of its own. The marks
of signers are in the same storage while signatures are counted.

## Main definitions

* `aclTransaction` — the access control list within a transaction.
* `countSigners_restores` — counting signatures leaves no mark.
* `transient_listed` — what is in use is listed, and nothing is left after a cleaning.
-/

namespace Fhevm.Host

open Foundation Contract TransientSet

variable {D : Deployment} {V : SignatureScheme}

/-! ## Permissions -/

section Permissions

/-- The access control list; a call comes with its context. -/
def aclTransaction (D : Deployment) :
    Contract (Context × ACLCall) ACLState HostError (List ACLEvent) where
  call i s := aclCall D i.1 s i.2

/-- The slot of the permission that a call gives for the transaction. -/
def permissionRecorded (D : Deployment) (i : Context × ACLCall) : Option Bytes32 :=
  match i.2 with
  | .allowTransient handle account => some (permissionKey D handle account)
  | _ => none

theorem aclCall_change {i : Context × ACLCall} {s s' : ACLState} {events : List ACLEvent}
    (h : aclCall D i.1 s i.2 = .ok (events, s')) :
    Change (permissionRecorded D i) s.transient s'.transient := by
  obtain ⟨ctx, call⟩ := i
  cases call with
  | allow handle account =>
    simp only [aclCall, allow, bind_eq_ok] at h
    obtain ⟨-, -, -, -, heq⟩ := h
    cases heq
    exact .same
  | allowForDecryption handlesList =>
    simp only [aclCall, allowForDecryption, bind_eq_ok, allowHandlesForDecryption_eq_ok] at h
    obtain ⟨-, -, -, -, -, -, _, ⟨-, rfl⟩, heq⟩ := h
    cases heq
    exact .same
  | allowTransient handle account =>
    simp only [aclCall, bind_eq_ok] at h
    obtain ⟨_, hallow, heq⟩ := h
    cases heq
    obtain ⟨-, rfl⟩ := (allowTransient_eq_ok _).mp hallow
    exact .record rfl
  | delegateForUserDecryption delegate contractAddress expirationDate =>
    simp only [aclCall, delegateForUserDecryption, bind_eq_ok] at h
    obtain ⟨-, -, -, -, -, -, -, -, -, -, -, -, -, -, _, -, heq⟩ := h
    cases heq
    exact .same
  | revokeDelegationForUserDecryption delegate contractAddress =>
    simp only [aclCall, revokeDelegationForUserDecryption, bind_eq_ok] at h
    obtain ⟨-, -, -, -, -, -, _, -, heq⟩ := h
    cases heq
    exact .same
  | pause =>
    simp only [aclCall, pause, bind_eq_ok] at h
    obtain ⟨-, -, -, -, heq⟩ := h
    cases heq
    exact .same
  | unpause =>
    simp only [aclCall, unpause, bind_eq_ok] at h
    obtain ⟨-, -, -, -, heq⟩ := h
    cases heq
    exact .same
  | blockAccount account =>
    simp only [aclCall, blockAccount, bind_eq_ok] at h
    obtain ⟨-, -, -, -, heq⟩ := h
    cases heq
    exact .same
  | unblockAccount account =>
    simp only [aclCall, unblockAccount, bind_eq_ok] at h
    obtain ⟨-, -, -, -, heq⟩ := h
    cases heq
    exact .same
  | cleanTransientStorage =>
    cases h
    exact .clear

end Permissions

/-! ## Marks of signers -/

section Marks

variable {s s' : InputVerifierState} {digest : Bytes32} {isVerified : Bool}

/-- Wherever the signers' slots are, the loop leaves the storage as it was: a mark is only set on a
slot that is not in use. The induction is on the signatures, with the marks set so far. -/
theorem countSigners_restores (signatures : List Bytes) (recoveredSigners : List Address)
    (hclear : ∀ a ∈ recoveredSigners, s.transient (addressWord a) = 0)
    (h : countSigners V digest signatures recoveredSigners (s.marked recoveredSigners) =
      .ok (isVerified, s')) : s' = s := by
  induction signatures generalizing recoveredSigners with
  | nil =>
    rw [countSigners, clean_marked hclear] at h
    cases h
    rfl
  | cons signature signatures ih =>
    simp only [countSigners, bind_eq_ok, require_eq_ok, exists_const] at h
    obtain ⟨signer, -, -, h⟩ := h
    -- the list of the next round, and that its slots were not in use
    obtain ⟨next, hnext, hnextClear⟩ : ∃ next,
        (if tload signer (s.marked recoveredSigners) = true
          then (recoveredSigners, s.marked recoveredSigners)
          else (recoveredSigners ++ [signer], tstore signer 1 (s.marked recoveredSigners))) =
            (next, s.marked next) ∧ ∀ a ∈ next, s.transient (addressWord a) = 0 := by
      split_ifs with hload
      · exact ⟨recoveredSigners, rfl, hclear⟩
      · refine ⟨recoveredSigners ++ [signer], by rw [tstore_marked], ?_⟩
        rw [List.forall_mem_append, List.forall_mem_singleton]
        refine ⟨hclear, ?_⟩
        simp only [tload, InputVerifierState.marked, bne_iff_ne, ne_eq, not_not] at hload
        split_ifs at hload with hmarked
        · exact absurd hload (by decide)
        · exact hload
    rw [hnext] at h
    dsimp only at h
    split_ifs at h with hquorum
    · rw [clean_marked hnextClear] at h
      cases h
      rfl
    · exact ih next hnextClear h

theorem verifyProof_restores {context : ContextUserInputs} {index : Nat} {inputProof : Bytes}
    {listHandles : List Bytes32}
    (h : verifyProof D V context index inputProof s = .ok (listHandles, s')) : s' = s := by
  simp only [verifyProof, verifyEIP712, verifySignaturesDigest, bind_eq_ok, require_eq_ok,
    pure_eq_ok, exists_const] at h
  obtain ⟨-, _, -, _, -, -, -, -, _, ⟨⟨isVerified, _⟩, ⟨-, -, hcount⟩, -, rfl⟩, heq⟩ := h
  cases heq
  rw [← marked_nil s] at hcount
  exact countSigners_restores _ [] (by simp) hcount

/-- An accepted handle leaves the storage as it was, but for its proof. -/
theorem verifyInput_changes {context : ContextUserInputs} {inputHandle result : Bytes32}
    {inputProof : Bytes}
    (h : verifyInput D V context inputHandle inputProof s = .ok (result, s')) :
    s' = s ∨ s' = cacheProof (cacheKey D context inputProof) s := by
  simp only [verifyInput, bind_eq_ok, require_eq_ok, exists_const] at h
  obtain ⟨-, h⟩ := h
  split_ifs at h
  · simp only [bind_eq_ok, require_eq_ok, exists_const] at h
    obtain ⟨_, -, -, heq⟩ := h
    cases heq
    exact .inl rfl
  · simp only [bind_eq_ok, require_eq_ok, exists_const] at h
    obtain ⟨⟨listHandles, s₁⟩, hproof, -, heq⟩ := h
    cases heq
    rw [verifyProof_restores hproof]
    exact .inr rfl

end Marks

/-! ## Remembered proofs -/

/-- The slot of the proof that a call remembers. -/
def InputVerifier.Call.proofRecorded (D : Deployment) : InputVerifier.Call → Option Bytes32
  | .verifyInput context _ inputProof => some (cacheKey D context inputProof)
  | _ => none

theorem InputVerifier.addSigners_transient (newSignersSet : List Address)
    {s s' : InputVerifier.Storage} (h : newSignersSet.foldlM Storage.addSigner s = .ok s') :
    s'.transient = s.transient := by
  refine foldlM_invariant (P := fun s' => s'.transient = s.transient) ?_ rfl h
  intro s signer s' hs hstep
  simp only [Storage.addSigner, bind_eq_ok, require_eq_ok, pure_eq_ok, exists_const] at hstep
  obtain ⟨-, -, rfl⟩ := hstep
  exact hs

theorem InputVerifier.defineNewContext_transient {isACLOwner : Bool} {newSignersSet : List Address}
    {newThreshold : Nat} {s s' : InputVerifier.Storage}
    (h : defineNewContext isACLOwner newSignersSet newThreshold s = .ok s') :
    s'.transient = s.transient := by
  simp only [defineNewContext, Storage.setThreshold, bind_eq_ok, require_eq_ok, pure_eq_ok,
    exists_const] at h
  obtain ⟨-, -, added, hadded, -, -, rfl⟩ := h
  have hkept := addSigners_transient newSignersSet hadded
  exact hkept

theorem InputVerifier.contract_change {i : InputVerifier.Call} {s s' : InputVerifier.Storage}
    {o : InputVerifier.Output} (h : (InputVerifier.contract D V).call i s = .ok (o, s')) :
    Change (i.proofRecorded D) s.transient s'.transient := by
  cases i with
  | defineNewContext isACLOwner newSignersSet newThreshold =>
    simp only [contract, bind_eq_ok, pure_eq_ok] at h
    obtain ⟨_, hdefine, heq⟩ := h
    cases heq
    rw [defineNewContext_transient hdefine]
    exact .same
  | setThreshold isACLOwner threshold =>
    simp only [contract, setThreshold, Storage.setThreshold, bind_eq_ok, require_eq_ok, pure_eq_ok,
      exists_const] at h
    obtain ⟨_, ⟨-, -, -, rfl⟩, heq⟩ := h
    cases heq
    exact .same
  | verifyInput context inputHandle inputProof =>
    simp only [contract, bind_eq_ok, mapError_eq_ok, pure_eq_ok] at h
    obtain ⟨⟨_, verifier⟩, hverify, heq⟩ := h
    cases heq
    obtain rfl | rfl := verifyInput_changes hverify
    · exact .same
    · exact .record rfl
  | cleanTransientStorage =>
    cases h
    exact .clear
  | newTransaction =>
    cases h
    exact .fresh

/-! ## Runs -/

/-- Within a transaction every slot in use is listed, and a cleaning leaves the transient storage
as it is at the beginning of a transaction. -/
theorem transient_listed (D : Deployment) (V : SignatureScheme) (acl₀ : ACLState)
    (hacl₀ : acl₀.transient = empty) (aclCalls : List (Context × ACLCall))
    (haclKeys : Behind (aclCalls.filterMap (permissionRecorded D)))
    (s₀ : InputVerifier.Storage) (hs₀ : s₀.transient = empty) (calls : List InputVerifier.Call)
    (hkeys : Behind (calls.filterMap (InputVerifier.Call.proofRecorded D))) :
    (∀ past, past <:+ aclCalls →
      let s := (aclTransaction D).exec acl₀ past
      AllListed s.transient ∧ cleanTransientStorage s = { s with transient := empty }) ∧
    ∀ past, past <:+ calls →
      let s := (InputVerifier.contract D V).exec s₀ past
      AllListed s.transient ∧ cleanProofCache s.toInputVerifierState =
        { s.toInputVerifierState with transient := empty } := by
  constructor
  · intro past hs s
    obtain ⟨keys, -, hexact⟩ := exec_exact (C := aclTransaction D) ACLState.transient
      (fun _ _ _ _ h => aclCall_change h) hacl₀ haclKeys past hs
    exact ⟨hexact.allListed, by rw [cleanTransientStorage, hexact.clear]⟩
  · intro past hs s
    obtain ⟨keys, -, hexact⟩ := exec_exact (C := InputVerifier.contract D V)
      (fun s => s.transient) (fun _ _ _ _ h => InputVerifier.contract_change h) hs₀ hkeys
        past hs
    exact ⟨hexact.allListed, by rw [cleanProofCache, hexact.clear]⟩

/-! ## Two user operations -/

/-- The executor allows a handle twice, before and after a cleaning. -/
def bundledAllows : List (Context × ACLCall) :=
  [(sampleContext 2, .allowTransient 7 10), (sampleContext 2, .allowTransient 7 10),
    (sampleContext 9, .cleanTransientStorage), (sampleContext 2, .allowTransient 7 10),
      (sampleContext 2, .allowTransient 7 10)]

/-- A proof is remembered before and after a cleaning. -/
def bundledProofs : List InputVerifier.Call :=
  [.verifyInput sampleInput.context sampleInput.inputHandle sampleInput.inputProof,
    .cleanTransientStorage,
    .verifyInput sampleInput.context sampleInput.inputHandle sampleInput.inputProof,
    .defineNewContext true [0xabcdef] 1]

theorem bundled_listed :
    AllListed ((aclTransaction sampleConfig.deployment).exec .init bundledAllows).transient ∧
      AllListed ((InputVerifier.contract sampleConfig.deployment oneSignature).exec .init
        bundledProofs).transient := by
  have hallows : bundledAllows.filterMap (permissionRecorded sampleConfig.deployment) =
      List.replicate 4 (permissionKey sampleConfig.deployment 7 10) := rfl
  have hproofs : bundledProofs.filterMap
      (InputVerifier.Call.proofRecorded sampleConfig.deployment) =
        List.replicate 2 (cacheKey sampleConfig.deployment sampleInput.context
          sampleInput.inputProof) := rfl
  obtain ⟨hacl, hverifier⟩ := transient_listed sampleConfig.deployment oneSignature .init rfl
    bundledAllows (hallows ▸ behind_replicate (by decide +kernel)) .init rfl bundledProofs
      (hproofs ▸ behind_replicate (by decide +kernel))
  have hlistedAllows := hacl bundledAllows List.suffix_rfl
  have hlistedProofs := hverifier bundledProofs List.suffix_rfl
  exact ⟨hlistedAllows.1, hlistedProofs.1⟩

end Fhevm.Host
