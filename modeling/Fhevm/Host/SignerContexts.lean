import Fhevm.Foundation.Flagged
import Fhevm.Gateway.Materials
import Fhevm.Host.InputVerifier
import Fhevm.Host.KMSVerifier
import Fhevm.Host.TransientStorage

/-!
# Contexts of signers

The verifier of inputs and that of public decryptions are deployed with a context, and the owner
replaces it. A signature counts if the flag of its signer is set, so no flag may be left of an
earlier context.

## Main definitions

* `ValidContext` — the flags are those of the listed signers, which can reach the threshold.
* `contexts_valid` — the contexts of both verifiers.
-/

namespace Fhevm.Host

open Foundation Contract Gateway

/-- The flags are those of the listed signers, without repetition or null address, and the threshold
can be reached. -/
structure ValidContext (isSigner : Address → Bool) (signers : List Address) (threshold : Nat) :
    Prop where
  isSigner_iff : ∀ a, isSigner a = true ↔ a ∈ signers
  nodup : signers.Nodup
  nonzero : 0 ∉ signers
  positive : 1 ≤ threshold
  reachable : threshold ≤ signers.length

/-- The flags and the list while a context is defined. -/
structure Listing (isSigner : Address → Bool) (signers : List Address) : Prop
    extends Flagged isSigner signers where
  nonzero : 0 ∉ signers

section Listing

variable {isSigner : Address → Bool} {signers : List Address} {threshold : Nat}

theorem ValidContext.listing (h : ValidContext isSigner signers threshold) :
    Listing isSigner signers :=
  ⟨⟨h.isSigner_iff, h.nodup⟩, h.nonzero⟩

theorem Listing.valid (h : Listing isSigner signers) (hpos : threshold ≠ 0)
    (hle : ¬ threshold > signers.length) : ValidContext isSigner signers threshold :=
  ⟨h.flag_iff, h.nodup, h.nonzero, by omega, by omega⟩

theorem listing_nil : Listing (fun _ => false) [] := ⟨flagged_nil, by simp⟩

theorem Listing.removed (h : Listing isSigner signers) :
    Listing (signers.foldl (fun isSigner signer => Function.update isSigner signer false) isSigner)
      [] :=
  ⟨h.toFlagged.clear, by simp⟩

theorem Listing.added (h : Listing isSigner signers) {signer : Address} (hnull : signer ≠ 0)
    (hnew : isSigner signer = false) :
    Listing (Function.update isSigner signer true) (signers ++ [signer]) := by
  refine ⟨h.toFlagged.add hnew, ?_⟩
  rw [List.mem_append, List.mem_singleton, not_or]
  exact ⟨h.nonzero, hnull.symm⟩

end Listing

/-! ## Public decryptions -/

namespace KMSVerifier

variable {s s' : Storage} {isACLOwner : Bool} {signers : List Address} {threshold : Nat}

abbrev Storage.Valid (s : Storage) : Prop := ValidContext s.isSigner s.signers s.threshold

/-- The first context, which comes with the deployment. -/
def initializeFromEmptyProxy (isACLOwner : Bool) (verifyingContractSource : Address)
    (chainIDSource : BitVec 64) (initialSigners : List Address) (initialThreshold : Nat) :
    Result Storage :=
  defineNewContext isACLOwner initialSigners initialThreshold
    (.init verifyingContractSource chainIDSource)

theorem addSigners_listing (newSignersSet : List Address) {s s' : Storage}
    (hs : Listing s.isSigner s.signers)
    (h : newSignersSet.foldlM Storage.addSigner s = .ok s') : Listing s'.isSigner s'.signers := by
  refine foldlM_invariant (P := fun s => Listing s.isSigner s.signers) ?_ hs h
  intro s signer s' hs hstep
  simp only [Storage.addSigner, bind_eq_ok, require_eq_ok, pure_eq_ok, exists_const] at hstep
  obtain ⟨hnull, hnew, rfl⟩ := hstep
  exact hs.added hnull hnew

theorem setThreshold_valid (hs : Listing s.isSigner s.signers)
    (h : s.setThreshold threshold = .ok s') : s'.Valid := by
  simp only [Storage.setThreshold, bind_eq_ok, require_eq_ok, pure_eq_ok, exists_const] at h
  obtain ⟨hpos, hle, rfl⟩ := h
  exact hs.valid hpos hle

theorem defineNewContext_valid (hs : Listing s.isSigner s.signers)
    (h : defineNewContext isACLOwner signers threshold s = .ok s') : s'.Valid := by
  simp only [defineNewContext, bind_eq_ok, require_eq_ok, exists_const] at h
  obtain ⟨-, -, added, hadded, hthreshold⟩ := h
  exact setThreshold_valid (addSigners_listing signers hs.removed hadded) hthreshold

theorem contract_valid {D : GatewayDeployment} {i : Call} {o : Output} (hs : s.Valid)
    (h : (contract D).call i s = .ok (o, s')) : s'.Valid := by
  cases i with
  | defineNewContext isACLOwner newSignersSet newThreshold =>
    simp only [contract, bind_eq_ok, pure_eq_ok] at h
    obtain ⟨_, hdefine, heq⟩ := h
    cases heq
    exact defineNewContext_valid hs.listing hdefine
  | setThreshold isACLOwner threshold =>
    simp only [contract, setThreshold, bind_eq_ok, require_eq_ok, pure_eq_ok, exists_const] at h
    obtain ⟨_, ⟨-, hset⟩, heq⟩ := h
    cases heq
    exact setThreshold_valid hs.listing hset
  | verifyDecryptionEIP712KMSSignatures handlesList decryptedResult decryptionProof =>
    simp only [contract, bind_eq_ok, pure_eq_ok] at h
    obtain ⟨⟨isVerified, _⟩, hverify, heq⟩ := h
    cases heq
    unfold verifyDecryptionEIP712KMSSignatures at hverify
    split at hverify
    · cases hverify
    · simp only [Storage.verifySignaturesDigest, bind_eq_ok, require_eq_ok, pure_eq_ok,
        exists_const] at hverify
      obtain ⟨-, -, -, _, -, heq⟩ := hverify
      cases heq
      exact hs
  | newTransaction =>
    cases h
    exact hs

end KMSVerifier

/-! ## Encrypted inputs -/

namespace InputVerifier

variable {s s' : Storage} {isACLOwner : Bool} {signers : List Address} {threshold : Nat}

abbrev Storage.Valid (s : Storage) : Prop := ValidContext s.isSigner s.signers s.threshold

theorem addSigners_listing (newSignersSet : List Address) {s s' : Storage}
    (hs : Listing s.isSigner s.signers)
    (h : newSignersSet.foldlM Storage.addSigner s = .ok s') : Listing s'.isSigner s'.signers := by
  refine foldlM_invariant (P := fun s => Listing s.isSigner s.signers) ?_ hs h
  intro s signer s' hs hstep
  simp only [Storage.addSigner, bind_eq_ok, require_eq_ok, pure_eq_ok, exists_const] at hstep
  obtain ⟨hnull, hnew, rfl⟩ := hstep
  exact hs.added hnull hnew

theorem setThreshold_valid (hs : Listing s.isSigner s.signers)
    (h : s.setThreshold threshold = .ok s') : s'.Valid := by
  simp only [Storage.setThreshold, bind_eq_ok, require_eq_ok, pure_eq_ok, exists_const] at h
  obtain ⟨hpos, hle, rfl⟩ := h
  exact hs.valid hpos hle

theorem defineNewContext_valid (hs : Listing s.isSigner s.signers)
    (h : defineNewContext isACLOwner signers threshold s = .ok s') : s'.Valid := by
  simp only [defineNewContext, bind_eq_ok, require_eq_ok, exists_const] at h
  obtain ⟨-, -, added, hadded, hthreshold⟩ := h
  exact setThreshold_valid (addSigners_listing signers hs.removed hadded) hthreshold

theorem contract_valid {D : Deployment} {V : SignatureScheme} {i : Call} {o : Output}
    (hs : s.Valid) (h : (contract D V).call i s = .ok (o, s')) : s'.Valid := by
  cases i with
  | defineNewContext isACLOwner newSignersSet newThreshold =>
    simp only [contract, bind_eq_ok, pure_eq_ok] at h
    obtain ⟨_, hdefine, heq⟩ := h
    cases heq
    exact defineNewContext_valid hs.listing hdefine
  | setThreshold isACLOwner threshold =>
    simp only [contract, setThreshold, bind_eq_ok, require_eq_ok, pure_eq_ok, exists_const] at h
    obtain ⟨_, ⟨-, hset⟩, heq⟩ := h
    cases heq
    exact setThreshold_valid hs.listing hset
  | verifyInput context inputHandle inputProof =>
    simp only [contract, bind_eq_ok, mapError_eq_ok, pure_eq_ok] at h
    obtain ⟨⟨_, verifier⟩, hverify, heq⟩ := h
    cases heq
    obtain rfl | rfl := verifyInput_changes hverify <;> exact hs
  | cleanTransientStorage =>
    cases h
    exact hs
  | newTransaction =>
    cases h
    exact hs

end InputVerifier

/-! ## Runs -/

/-- After any calls to a deployed verifier, committed or reverted, its context is valid. -/
theorem contexts_valid (D : GatewayDeployment) (verifyingContractSource : Address)
    (chainIDSource : BitVec 64) (isOwner : Bool) (initialSigners : List Address)
    (initialThreshold : Nat) (k₀ : KMSVerifier.Storage)
    (hk₀ : KMSVerifier.initializeFromEmptyProxy isOwner verifyingContractSource chainIDSource
      initialSigners initialThreshold = .ok k₀)
    (D' : Deployment) (V : SignatureScheme) (isOwner' : Bool) (initialSigners' : List Address)
    (initialThreshold' : Nat) (s₀ : InputVerifier.Storage)
    (hs₀ : InputVerifier.initializeFromEmptyProxy isOwner' initialSigners' initialThreshold' =
      .ok s₀) :
    (∀ calls, ((KMSVerifier.contract D).exec k₀ calls).Valid) ∧
      ∀ calls, ((InputVerifier.contract D' V).exec s₀ calls).Valid := by
  constructor
  · exact exec_invariant (KMSVerifier.defineNewContext_valid listing_nil hk₀)
      fun _ _ _ _ => KMSVerifier.contract_valid
  · exact exec_invariant (InputVerifier.defineNewContext_valid listing_nil hs₀)
      fun _ _ _ _ => InputVerifier.contract_valid

/-- An overlapping context, and one that is refused half-way because of a repeated signer. -/
theorem overlapping_valid : ∃ k₀ s₀,
    KMSVerifier.initializeFromEmptyProxy true 70 5 [7, 9] 2 = .ok k₀ ∧
    InputVerifier.initializeFromEmptyProxy true [7, 9] 2 = .ok s₀ ∧
    ((KMSVerifier.contract sampleDeployment).exec k₀
      [.defineNewContext true [11, 9, 11] 1, .defineNewContext true [9, 11, 13] 3]).Valid ∧
    ((InputVerifier.contract sampleConfig.deployment oneSignature).exec s₀
      [.defineNewContext true [11, 9, 11] 1, .defineNewContext true [9, 11, 13] 3]).Valid := by
  obtain ⟨k₀, hk₀⟩ := exists_of_isOk
    (x := KMSVerifier.initializeFromEmptyProxy true 70 5 [7, 9] 2) (by decide +kernel)
  obtain ⟨s₀, hs₀⟩ := exists_of_isOk
    (x := InputVerifier.initializeFromEmptyProxy true [7, 9] 2) (by decide +kernel)
  obtain ⟨hkms, hinput⟩ := contexts_valid sampleDeployment 70 5 true [7, 9] 2 k₀ hk₀
    sampleConfig.deployment oneSignature true [7, 9] 2 s₀ hs₀
  exact ⟨k₀, s₀, hk₀, hs₀, hkms _, hinput _⟩

end Fhevm.Host
