import Fhevm.Foundation.Flagged
import Fhevm.Gateway.Thresholds

/-!
# Registered operators and host chains

The other contracts ask for flags and for the record of a transaction sender, while the lists are
kept to reset them at the next update. Addresses may repeat within a list and between the old and
the new one.

## Main definitions

* `Registry.Consistent` — the flags and records are those of the lists.
* `HostChainsConsistent` — the flags of the host chains are those of the list.
* `registrations_consistent` — both hold after every run.
-/

namespace Fhevm.Gateway

open Foundation Contract

/-- The flags are those of the lists, and only listed transaction senders have a record. -/
structure Registry.Consistent (r : Registry) : Prop where
  isTxSender_iff : ∀ a, r.isTxSender a = true ↔ a ∈ r.txSenderAddresses
  isSigner_iff : ∀ a, r.isSigner a = true ↔ a ∈ r.signerAddresses
  default : ∀ a, r.operators a ≠ ⟨0, 0, ""⟩ → a ∈ r.txSenderAddresses

theorem Registry.consistent_ofList (ops : List Operator) : (ofList ops).Consistent := by
  have h := records_ofList ops
  constructor
  · rw [txSenderAddresses_ofList]
    exact h.isTxSender
  · rw [signerAddresses_ofList]
    exact h.isSigner
  · intro a hrecord
    rw [txSenderAddresses_ofList]
    by_contra hnot
    exact hrecord (h.default a hnot)

/-- The host chains are listed once, under an id of 64 bits that is not null, and flagged. -/
structure HostChainsConsistent (s : GatewayConfigStorage) : Prop where
  isHostChainRegistered_iff : ∀ id, s.isHostChainRegistered id = true ↔ id ∈ s.hostChains
  nodup : s.hostChains.Nodup
  chainId : ∀ id ∈ s.hostChains, id ≠ 0 ∧ id < 2 ^ 64

/-! ## Calls -/

section Calls

variable {s s' : GatewayConfigStorage} {sender : Address} {c : GatewayConfigCall}

/-- The custodians after a call. -/
def GatewayConfigCall.custodians (s : GatewayConfigStorage) : GatewayConfigCall → Registry
  | .initializeFromEmptyProxy _ _ _ custodians => s.custodians.registerAll custodians
  | .updateCustodians newCustodians => s.custodians.clear.registerAll newCustodians
  | _ => s.custodians

/-- Which calls change the custodians and the host chains, and how. -/
theorem configCall_changes (h : configCall sender c s = .ok s') :
    s'.custodians = c.custodians s ∧
      ((s'.hostChains = s.hostChains ∧ s'.isHostChainRegistered = s.isHostChainRegistered) ∨
        ∃ chainId, (chainId ≠ 0 ∧ chainId < 2 ^ 64) ∧ s.isHostChainRegistered chainId = false ∧
          s'.hostChains = s.hostChains ++ [chainId] ∧
            s'.isHostChainRegistered = Function.update s.isHostChainRegistered chainId true) := by
  cases c with
  | initializeFromEmptyProxy thresholds kmsNodes coprocessors custodians =>
    simp only [configCall, initializeGatewayConfig, reinitializer, setCustodians, bind_eq_ok,
      require_eq_ok, setKmsNodes_eq_ok, setCoprocessors_eq_ok, pure_eq_ok, exists_const] at h
    obtain ⟨-, _, ⟨-, rfl⟩, -, _, ⟨-, -, -, -, -, rfl⟩, _, ⟨-, -, rfl⟩, -, rfl⟩ := h
    exact ⟨rfl, .inl ⟨rfl, rfl⟩⟩
  | reinitializeV3 newKmsNodes =>
    simp only [configCall, reinitializeV3, reinitializer, updateKmsNodes, onlyOwner, bind_eq_ok,
      require_eq_ok, setKmsNodes_eq_ok, pure_eq_ok, exists_const] at h
    obtain ⟨_, ⟨-, rfl⟩, -, -, -, -, -, -, rfl⟩ := h
    exact ⟨rfl, .inl ⟨rfl, rfl⟩⟩
  | updateKmsNodes newKmsNodes mpc p u g =>
    simp only [configCall, updateKmsNodes, onlyOwner, bind_eq_ok, require_eq_ok,
      setKmsNodes_eq_ok, exists_const] at h
    obtain ⟨-, -, -, -, -, -, rfl⟩ := h
    exact ⟨rfl, .inl ⟨rfl, rfl⟩⟩
  | updateCoprocessors newCoprocessors threshold =>
    simp only [configCall, updateCoprocessors, onlyOwner, bind_eq_ok, require_eq_ok,
      setCoprocessors_eq_ok, exists_const] at h
    obtain ⟨-, -, -, rfl⟩ := h
    exact ⟨rfl, .inl ⟨rfl, rfl⟩⟩
  | updateCustodians newCustodians =>
    simp only [configCall, updateCustodians, setCustodians, onlyOwner, bind_eq_ok, require_eq_ok,
      pure_eq_ok, exists_const] at h
    obtain ⟨-, -, rfl⟩ := h
    exact ⟨rfl, .inl ⟨rfl, rfl⟩⟩
  | addHostChain chainId =>
    simp only [configCall, addHostChain, onlyOwner, bind_eq_ok, require_eq_ok, pure_eq_ok,
      exists_const] at h
    obtain ⟨-, hnull, hmax, hnew, rfl⟩ := h
    have hlargest : MAX_CHAIN_ID = 2 ^ 64 - 1 := rfl
    exact ⟨rfl, .inr ⟨chainId, ⟨hnull, by omega⟩, hnew, rfl, rfl⟩⟩
  | updateMpcThreshold threshold =>
    simp only [configCall, setMpcThreshold, onlyOwner, bind_eq_ok, require_eq_ok, pure_eq_ok,
      exists_const] at h
    obtain ⟨-, -, rfl⟩ := h
    exact ⟨rfl, .inl ⟨rfl, rfl⟩⟩
  | updatePublicDecryptionThreshold threshold =>
    simp only [configCall, setPublicDecryptionThreshold, onlyOwner, bind_eq_ok, require_eq_ok,
      checkThreshold_eq_ok, pure_eq_ok, exists_const] at h
    obtain ⟨-, -, rfl⟩ := h
    exact ⟨rfl, .inl ⟨rfl, rfl⟩⟩
  | updateUserDecryptionThreshold threshold =>
    simp only [configCall, setUserDecryptionThreshold, onlyOwner, bind_eq_ok, require_eq_ok,
      checkThreshold_eq_ok, pure_eq_ok, exists_const] at h
    obtain ⟨-, -, rfl⟩ := h
    exact ⟨rfl, .inl ⟨rfl, rfl⟩⟩
  | updateKmsGenThreshold threshold =>
    simp only [configCall, setKmsGenThreshold, onlyOwner, bind_eq_ok, require_eq_ok,
      checkThreshold_eq_ok, pure_eq_ok, exists_const] at h
    obtain ⟨-, -, rfl⟩ := h
    exact ⟨rfl, .inl ⟨rfl, rfl⟩⟩
  | updateCoprocessorThreshold threshold =>
    simp only [configCall, setCoprocessorThreshold, onlyOwner, bind_eq_ok, require_eq_ok,
      checkThreshold_eq_ok, pure_eq_ok, exists_const] at h
    obtain ⟨-, -, rfl⟩ := h
    exact ⟨rfl, .inl ⟨rfl, rfl⟩⟩
  | transferOwnership newOwner =>
    simp only [configCall, onlyOwner, bind_eq_ok, require_eq_ok, pure_eq_ok, exists_const] at h
    obtain ⟨-, rfl⟩ := h
    exact ⟨rfl, .inl ⟨rfl, rfl⟩⟩
  | acceptOwnership =>
    simp only [configCall, bind_eq_ok, require_eq_ok, pure_eq_ok, exists_const] at h
    obtain ⟨-, rfl⟩ := h
    exact ⟨rfl, .inl ⟨rfl, rfl⟩⟩
  | renounceOwnership =>
    simp only [configCall, onlyOwner, bind_eq_ok, require_eq_ok, pure_eq_ok, exists_const] at h
    obtain ⟨-, rfl⟩ := h
    exact ⟨rfl, .inl ⟨rfl, rfl⟩⟩

/-- The custodians are those of a list still. -/
theorem custodians_ofList {ops : List Operator} (hs : s.custodians = .ofList ops) :
    ∃ ops', c.custodians s = .ofList ops' := by
  unfold GatewayConfigCall.custodians
  split
  · exact ⟨ops ++ _, by rw [hs, Registry.registerAll_ofList]⟩
  · exact ⟨_, by rw [hs, Registry.clear_ofList]; rfl⟩
  · exact ⟨ops, hs⟩

end Calls

/-! ## Runs -/

theorem custodians_listed (owner : Address) (calls : List (Address × GatewayConfigCall)) :
    ∃ ops, (configAfter owner calls).custodians = .ofList ops := by
  apply exec_invariant (P := fun s : GatewayConfigStorage => ∃ ops, s.custodians = .ofList ops)
  · exact ⟨[], rfl⟩
  · rintro i s o s' ⟨ops, hs⟩ h
    rw [(configCall_changes (configCall_of_ok h)).1]
    exact custodians_ofList hs

theorem hostChains_flagged (owner : Address) (calls : List (Address × GatewayConfigCall)) :
    HostChainsConsistent (configAfter owner calls) := by
  apply exec_invariant
  · exact ⟨by simp [GatewayConfigStorage.emptyProxy], List.nodup_nil, by
      simp [GatewayConfigStorage.emptyProxy]⟩
  · rintro i s o s' hs h
    obtain ⟨-, ⟨hlist, hflags⟩ | ⟨chainId, hid, hnew, hlist, hflags⟩⟩ :=
      configCall_changes (configCall_of_ok h)
    · exact ⟨by rw [hlist, hflags]; exact hs.isHostChainRegistered_iff, hlist ▸ hs.nodup,
        hlist ▸ hs.chainId⟩
    · have hadded := Flagged.add ⟨hs.isHostChainRegistered_iff, hs.nodup⟩ hnew
      rw [← hlist, ← hflags] at hadded
      refine ⟨hadded.flag_iff, hadded.nodup, ?_⟩
      rw [hlist, List.forall_mem_append, List.forall_mem_singleton]
      exact ⟨hs.chainId, hid⟩

/-- After every run the flags and records of the three kinds of operators are those of the current
lists, and the host chains are listed once, under proper ids. -/
theorem registrations_consistent (owner : Address) (calls : List (Address × GatewayConfigCall)) :
    (configAfter owner calls).kms.Consistent ∧ (configAfter owner calls).coprocessors.Consistent ∧
      (configAfter owner calls).custodians.Consistent ∧
        HostChainsConsistent (configAfter owner calls) := by
  have hlisted := listed owner calls
  obtain ⟨kmsOps, hkms⟩ := hlisted.kms
  obtain ⟨cpOps, hcp⟩ := hlisted.coprocessors
  obtain ⟨custodianOps, hcustodians⟩ := custodians_listed owner calls
  rw [hkms, hcp, hcustodians]
  exact ⟨Registry.consistent_ofList kmsOps, Registry.consistent_ofList cpOps,
    Registry.consistent_ofList custodianOps, hostChains_flagged owner calls⟩

end Fhevm.Gateway
