import Fhevm.Gateway.GatewayConfig

/-!
# Thresholds and registered operators

The thresholds are checked against the length of the list of signers. What can vote are
the pairs of a transaction sender and a signer that pass the checks of the other contracts,
and a transaction sender that is listed twice is one of them only once.

## Main definitions

* `Registry.ofList` — the registry of a list of operators.
* `Asked` — lists and thresholds, as a call asks for them.
* `ConsensusReachable` — every threshold can be met by distinct operators.
* `consensusReachable_iff` — in which runs that holds.
-/

namespace Fhevm.Gateway

open Foundation Contract

/-! ## The registry of a list -/

namespace Registry

def ofList (operators : List Operator) : Registry := empty.registerAll operators

@[simp] theorem ofList_nil : ofList [] = empty := rfl

theorem registerAll_append (r : Registry) (ops ops' : List Operator) :
    r.registerAll (ops ++ ops') = (r.registerAll ops).registerAll ops' :=
  List.foldl_append

theorem registerAll_ofList (ops ops' : List Operator) :
    (ofList ops).registerAll ops' = ofList (ops ++ ops') :=
  (registerAll_append empty ops ops').symm

theorem ofList_concat (ops : List Operator) (o : Operator) :
    ofList (ops ++ [o]) = (ofList ops).register o :=
  registerAll_append empty ops [o]

@[simp] theorem txSenderAddresses_registerAll (r : Registry) (ops : List Operator) :
    (r.registerAll ops).txSenderAddresses =
      r.txSenderAddresses ++ ops.map Operator.txSenderAddress := by
  induction ops generalizing r with
  | nil => simp [registerAll]
  | cons o ops ih =>
    have := ih (r.register o)
    simp_all [registerAll, register]

@[simp] theorem signerAddresses_registerAll (r : Registry) (ops : List Operator) :
    (r.registerAll ops).signerAddresses =
      r.signerAddresses ++ ops.map Operator.signerAddress := by
  induction ops generalizing r with
  | nil => simp [registerAll]
  | cons o ops ih =>
    have := ih (r.register o)
    simp_all [registerAll, register]

theorem txSenderAddresses_ofList (ops : List Operator) :
    (ofList ops).txSenderAddresses = ops.map Operator.txSenderAddress := by
  simp [ofList, empty]

theorem signerAddresses_ofList (ops : List Operator) :
    (ofList ops).signerAddresses = ops.map Operator.signerAddress := by
  simp [ofList, empty]

/-- What the registry of a list holds of an address: the flags say whether it is listed, and
the record of a transaction sender is one of its operators, the last. -/
structure Records (ops : List Operator) (r : Registry) : Prop where
  isTxSender : ∀ a, r.isTxSender a = true ↔ a ∈ ops.map Operator.txSenderAddress
  isSigner : ∀ a, r.isSigner a = true ↔ a ∈ ops.map Operator.signerAddress
  listed : ∀ a ∈ ops.map Operator.txSenderAddress,
    r.operators a ∈ ops ∧ (r.operators a).txSenderAddress = a
  default : ∀ a ∉ ops.map Operator.txSenderAddress, r.operators a = ⟨0, 0, ""⟩

theorem records_ofList (ops : List Operator) : Records ops (ofList ops) := by
  induction ops using List.reverseRecOn with
  | nil => exact ⟨by simp [empty], by simp [empty], by simp, fun _ _ => rfl⟩
  | append_singleton ops o ih =>
    rw [ofList_concat]
    refine ⟨fun a => ?_, fun a => ?_, fun a ha => ?_, fun a ha => ?_⟩
    · have := ih.isTxSender a
      simp only [register, Function.update_apply]
      grind
    · have := ih.isSigner a
      simp only [register, Function.update_apply]
      grind
    · have := ih.listed a
      simp only [register, Function.update_apply]
      grind
    · have := ih.default a
      simp only [register, Function.update_apply]
      grind

theorem foldl_unregister (l : List (Address × Address)) (r : Registry) :
    l.foldl unregister r =
      { r with
        isTxSender := fun a => if a ∈ l.map Prod.fst then false else r.isTxSender a
        isSigner := fun a => if a ∈ l.map Prod.snd then false else r.isSigner a
        operators := fun a => if a ∈ l.map Prod.fst then ⟨0, 0, ""⟩ else r.operators a } := by
  induction l generalizing r with
  | nil => simp
  | cons p l ih =>
    rw [List.foldl_cons, ih]
    simp only [unregister, List.map_cons, List.mem_cons, Registry.mk.injEq, and_true]
    refine ⟨funext fun a => ?_, funext fun a => ?_, funext fun a => ?_⟩
    all_goals
      simp only [Function.update_apply]
      grind

/-- Removing the listed operators leaves nothing, also where addresses repeat. -/
theorem clear_ofList (ops : List Operator) : (ofList ops).clear = empty := by
  have h := records_ofList ops
  have hzip : (ops.map Operator.txSenderAddress).zip (ops.map Operator.signerAddress) =
      ops.map fun o => (o.txSenderAddress, o.signerAddress) := List.zip_map'
  rw [clear, txSenderAddresses_ofList, signerAddresses_ofList, hzip, foldl_unregister]
  simp only [List.map_map, empty, Registry.mk.injEq, and_true]
  refine ⟨funext fun a => ?_, funext fun a => ?_, funext fun a => ?_⟩
  · have := h.isTxSender a
    split_ifs with ha
    · rfl
    · exact Bool.eq_false_iff.mpr fun ht => ha (this.mp ht)
  · have := h.isSigner a
    split_ifs with ha
    · rfl
    · exact Bool.eq_false_iff.mpr fun ht => ha (this.mp ht)
  · split_ifs with ha
    · rfl
    · exact h.default a ha

/-- The number of distinct operators that can vote. -/
noncomputable def voters (r : Registry) : Nat := {o | r.AbleToVote o}.ncard

end Registry

/-! ## What a call asks for -/

/-- The transaction senders of the operators, and the thresholds that count their votes. -/
structure Asked where
  kmsTxSenders : List Address
  publicDecryptionThreshold : Nat
  userDecryptionThreshold : Nat
  kmsGenThreshold : Nat
  coprocessorTxSenders : List Address
  coprocessorThreshold : Nat

def GatewayConfigStorage.asked (s : GatewayConfigStorage) : Asked where
  kmsTxSenders := s.kms.txSenderAddresses
  publicDecryptionThreshold := s.publicDecryptionThreshold
  userDecryptionThreshold := s.userDecryptionThreshold
  kmsGenThreshold := s.kmsGenThreshold
  coprocessorTxSenders := s.coprocessors.txSenderAddresses
  coprocessorThreshold := s.coprocessorThreshold

/-- What is asked for after the call: its own arguments, and the rest as it is. -/
def GatewayConfigCall.asks (s : GatewayConfigStorage) : GatewayConfigCall → Asked
  | .initializeFromEmptyProxy thresholds kmsNodes coprocessors _ =>
    { kmsTxSenders := s.kms.txSenderAddresses ++ kmsNodes.map Operator.txSenderAddress
      publicDecryptionThreshold := thresholds.publicDecryptionThreshold
      userDecryptionThreshold := thresholds.userDecryptionThreshold
      kmsGenThreshold := thresholds.kmsGenThreshold
      coprocessorTxSenders :=
        s.coprocessors.txSenderAddresses ++ coprocessors.map Operator.txSenderAddress
      coprocessorThreshold := thresholds.coprocessorThreshold }
  | .reinitializeV3 newKmsNodes =>
    { s.asked with kmsTxSenders := newKmsNodes.map Operator.txSenderAddress }
  | .updateKmsNodes newKmsNodes _ publicDecryption userDecryption kmsGen =>
    { s.asked with
      kmsTxSenders := newKmsNodes.map Operator.txSenderAddress
      publicDecryptionThreshold := publicDecryption
      userDecryptionThreshold := userDecryption
      kmsGenThreshold := kmsGen }
  | .updateCoprocessors newCoprocessors threshold =>
    { s.asked with
      coprocessorTxSenders := newCoprocessors.map Operator.txSenderAddress
      coprocessorThreshold := threshold }
  | .updatePublicDecryptionThreshold threshold =>
    { s.asked with publicDecryptionThreshold := threshold }
  | .updateUserDecryptionThreshold threshold =>
    { s.asked with userDecryptionThreshold := threshold }
  | .updateKmsGenThreshold threshold => { s.asked with kmsGenThreshold := threshold }
  | .updateCoprocessorThreshold threshold => { s.asked with coprocessorThreshold := threshold }
  | _ => s.asked

/-- There are as many distinct transaction senders as the thresholds require. Before the
contract is initialised there may be no coprocessors. -/
structure Asked.Covered (a : Asked) : Prop where
  publicDecryption : a.publicDecryptionThreshold ≤ a.kmsTxSenders.toFinset.card
  userDecryption : a.userDecryptionThreshold ≤ a.kmsTxSenders.toFinset.card
  kmsGen : a.kmsGenThreshold ≤ a.kmsTxSenders.toFinset.card
  coprocessor : a.coprocessorThreshold ≤ a.coprocessorTxSenders.toFinset.card
  someCoprocessor : 0 < a.coprocessorThreshold

/-! ## Committed calls -/

section Calls

variable {s s' : GatewayConfigStorage} {sender : Address} {c : GatewayConfigCall}

theorem checkThreshold_eq_ok {t n : Nat} {null : GatewayConfigError}
    {high : Nat → Nat → GatewayConfigError} {u : Unit} :
    checkThreshold t n null high = .ok u ↔ 0 < t ∧ t ≤ n := by
  simp only [checkThreshold, bind_eq_ok, require_eq_ok, exists_const]
  omega

theorem setKmsNodes_eq_ok {kmsNodes : List Operator} {mpc p u g : Nat} :
    setKmsNodes kmsNodes mpc p u g s = .ok s' ↔
      kmsNodes ≠ [] ∧ mpc < (s.kms.registerAll kmsNodes).signerAddresses.length ∧
        (0 < p ∧ p ≤ (s.kms.registerAll kmsNodes).signerAddresses.length) ∧
          (0 < u ∧ u ≤ (s.kms.registerAll kmsNodes).signerAddresses.length) ∧
            (0 < g ∧ g ≤ (s.kms.registerAll kmsNodes).signerAddresses.length) ∧
              s' = { s with
                kms := s.kms.registerAll kmsNodes
                mpcThreshold := mpc
                publicDecryptionThreshold := p
                userDecryptionThreshold := u
                kmsGenThreshold := g } := by
  simp only [setKmsNodes, setMpcThreshold, setPublicDecryptionThreshold,
    setUserDecryptionThreshold, setKmsGenThreshold, bind_eq_ok, require_eq_ok,
    checkThreshold_eq_ok, pure_eq_ok, exists_const]
  constructor
  · rintro ⟨hne, _, ⟨hm, rfl⟩, _, ⟨hp, rfl⟩, _, ⟨hu, rfl⟩, hg, rfl⟩
    exact ⟨hne, by omega, hp, hu, hg, rfl⟩
  · rintro ⟨hne, hm, hp, hu, hg, rfl⟩
    exact ⟨hne, _, ⟨by omega, rfl⟩, _, ⟨hp, rfl⟩, _, ⟨hu, rfl⟩, hg, rfl⟩

theorem setCoprocessors_eq_ok {coprocessors : List Operator} {t : Nat} :
    setCoprocessors coprocessors t s = .ok s' ↔
      coprocessors ≠ [] ∧
        (0 < t ∧ t ≤ (s.coprocessors.registerAll coprocessors).signerAddresses.length) ∧
          s' = { s with
            coprocessors := s.coprocessors.registerAll coprocessors
            coprocessorThreshold := t } := by
  simp only [setCoprocessors, setCoprocessorThreshold, bind_eq_ok, require_eq_ok,
    checkThreshold_eq_ok, pure_eq_ok, exists_const]
  grind

/-- Every registry is that of a list, and the initialised contract requires votes. -/
structure Listed (s : GatewayConfigStorage) : Prop where
  kms : ∃ ops, s.kms = .ofList ops
  coprocessors : ∃ ops, s.coprocessors = .ofList ops
  initialized : s.initializedVersion = REINITIALIZER_VERSION →
    0 < s.publicDecryptionThreshold ∧ 0 < s.userDecryptionThreshold ∧ 0 < s.kmsGenThreshold

/-- What a committed call does: the registries are those of lists still, and the lists and
thresholds are the ones it asks for. -/
theorem configCall_spec (hs : Listed s) (h : configCall sender c s = .ok s') :
    Listed s' ∧ s'.asked = c.asks s := by
  obtain ⟨⟨kmsOps, hkms⟩, ⟨cpOps, hcp⟩, hpos⟩ := hs
  -- an update that leaves the registries and the version alone
  have hkeep : s'.kms = s.kms → s'.coprocessors = s.coprocessors →
      s'.initializedVersion = s.initializedVersion →
        (0 < s.publicDecryptionThreshold → 0 < s'.publicDecryptionThreshold) →
          (0 < s.userDecryptionThreshold → 0 < s'.userDecryptionThreshold) →
            (0 < s.kmsGenThreshold → 0 < s'.kmsGenThreshold) → Listed s' := by
    intro h₁ h₂ h₃ hp hu hg
    refine ⟨⟨kmsOps, h₁.trans hkms⟩, ⟨cpOps, h₂.trans hcp⟩, fun hv => ?_⟩
    obtain ⟨h₄, h₅, h₆⟩ := hpos (h₃ ▸ hv)
    exact ⟨hp h₄, hu h₅, hg h₆⟩
  cases c with
  | initializeFromEmptyProxy thresholds kmsNodes coprocessors custodians =>
    simp only [configCall, initializeGatewayConfig, reinitializer, setCustodians, bind_eq_ok,
      require_eq_ok, setKmsNodes_eq_ok, setCoprocessors_eq_ok, pure_eq_ok, exists_const] at h
    obtain ⟨-, _, ⟨-, rfl⟩, -, _, ⟨-, -, hp, hu, hg, rfl⟩, _, ⟨-, -, rfl⟩, -, rfl⟩ := h
    refine ⟨⟨⟨kmsOps ++ kmsNodes, ?_⟩, ⟨cpOps ++ coprocessors, ?_⟩,
      fun _ => ⟨hp.1, hu.1, hg.1⟩⟩, ?_⟩
    · dsimp only
      rw [hkms, Registry.registerAll_ofList]
    · dsimp only
      rw [hcp, Registry.registerAll_ofList]
    · simp [GatewayConfigStorage.asked, GatewayConfigCall.asks]
  | reinitializeV3 newKmsNodes =>
    simp only [configCall, reinitializeV3, reinitializer, updateKmsNodes, onlyOwner, bind_eq_ok,
      require_eq_ok, setKmsNodes_eq_ok, pure_eq_ok, exists_const] at h
    obtain ⟨_, ⟨-, rfl⟩, -, -, -, hp, hu, hg, rfl⟩ := h
    simp only [hkms, Registry.clear_ofList] at hp hu hg ⊢
    refine ⟨⟨⟨newKmsNodes, rfl⟩, ⟨cpOps, hcp⟩, fun _ => ⟨hp.1, hu.1, hg.1⟩⟩, ?_⟩
    simp [GatewayConfigStorage.asked, GatewayConfigCall.asks, Registry.empty]
  | updateKmsNodes newKmsNodes mpc p u g =>
    simp only [configCall, updateKmsNodes, onlyOwner, bind_eq_ok, require_eq_ok,
      setKmsNodes_eq_ok, exists_const] at h
    obtain ⟨-, -, -, hp, hu, hg, rfl⟩ := h
    simp only [hkms, Registry.clear_ofList] at hp hu hg ⊢
    refine ⟨⟨⟨newKmsNodes, rfl⟩, ⟨cpOps, hcp⟩, fun _ => ⟨hp.1, hu.1, hg.1⟩⟩, ?_⟩
    simp [GatewayConfigStorage.asked, GatewayConfigCall.asks, Registry.empty]
  | updateCoprocessors newCoprocessors threshold =>
    simp only [configCall, updateCoprocessors, onlyOwner, bind_eq_ok, require_eq_ok,
      setCoprocessors_eq_ok, exists_const] at h
    obtain ⟨-, -, -, rfl⟩ := h
    simp only [hcp, Registry.clear_ofList]
    refine ⟨⟨⟨kmsOps, hkms⟩, ⟨newCoprocessors, rfl⟩, hpos⟩, ?_⟩
    simp [GatewayConfigStorage.asked, GatewayConfigCall.asks, Registry.empty]
  | updateCustodians newCustodians =>
    simp only [configCall, updateCustodians, setCustodians, onlyOwner, bind_eq_ok, require_eq_ok,
      pure_eq_ok, exists_const] at h
    obtain ⟨-, -, rfl⟩ := h
    exact ⟨⟨⟨kmsOps, hkms⟩, ⟨cpOps, hcp⟩, hpos⟩, rfl⟩
  | addHostChain chainId =>
    simp only [configCall, addHostChain, onlyOwner, bind_eq_ok, require_eq_ok, pure_eq_ok,
      exists_const] at h
    obtain ⟨-, -, -, -, rfl⟩ := h
    exact ⟨⟨⟨kmsOps, hkms⟩, ⟨cpOps, hcp⟩, hpos⟩, rfl⟩
  | updateMpcThreshold threshold =>
    simp only [configCall, setMpcThreshold, onlyOwner, bind_eq_ok, require_eq_ok, pure_eq_ok,
      exists_const] at h
    obtain ⟨-, -, rfl⟩ := h
    exact ⟨⟨⟨kmsOps, hkms⟩, ⟨cpOps, hcp⟩, hpos⟩, rfl⟩
  | updatePublicDecryptionThreshold threshold =>
    simp only [configCall, setPublicDecryptionThreshold, onlyOwner, bind_eq_ok, require_eq_ok,
      checkThreshold_eq_ok, pure_eq_ok, exists_const] at h
    obtain ⟨-, ht, rfl⟩ := h
    exact ⟨hkeep rfl rfl rfl (fun _ => ht.1) id id, rfl⟩
  | updateUserDecryptionThreshold threshold =>
    simp only [configCall, setUserDecryptionThreshold, onlyOwner, bind_eq_ok, require_eq_ok,
      checkThreshold_eq_ok, pure_eq_ok, exists_const] at h
    obtain ⟨-, ht, rfl⟩ := h
    exact ⟨hkeep rfl rfl rfl id (fun _ => ht.1) id, rfl⟩
  | updateKmsGenThreshold threshold =>
    simp only [configCall, setKmsGenThreshold, onlyOwner, bind_eq_ok, require_eq_ok,
      checkThreshold_eq_ok, pure_eq_ok, exists_const] at h
    obtain ⟨-, ht, rfl⟩ := h
    exact ⟨hkeep rfl rfl rfl id id (fun _ => ht.1), rfl⟩
  | updateCoprocessorThreshold threshold =>
    simp only [configCall, setCoprocessorThreshold, onlyOwner, bind_eq_ok, require_eq_ok,
      checkThreshold_eq_ok, pure_eq_ok, exists_const] at h
    obtain ⟨-, -, rfl⟩ := h
    exact ⟨hkeep rfl rfl rfl id id id, rfl⟩
  | transferOwnership newOwner =>
    simp only [configCall, onlyOwner, bind_eq_ok, require_eq_ok, pure_eq_ok, exists_const] at h
    obtain ⟨-, rfl⟩ := h
    exact ⟨⟨⟨kmsOps, hkms⟩, ⟨cpOps, hcp⟩, hpos⟩, rfl⟩
  | acceptOwnership =>
    simp only [configCall, bind_eq_ok, require_eq_ok, pure_eq_ok, exists_const] at h
    obtain ⟨-, rfl⟩ := h
    exact ⟨⟨⟨kmsOps, hkms⟩, ⟨cpOps, hcp⟩, hpos⟩, rfl⟩
  | renounceOwnership =>
    simp only [configCall, onlyOwner, bind_eq_ok, require_eq_ok, pure_eq_ok, exists_const] at h
    obtain ⟨-, rfl⟩ := h
    exact ⟨⟨⟨kmsOps, hkms⟩, ⟨cpOps, hcp⟩, hpos⟩, rfl⟩

end Calls

/-! ## Runs -/

/-- The storage after a run on the empty proxy of an owner. -/
abbrev configAfter (owner : Address) (calls : List (Address × GatewayConfigCall)) :
    GatewayConfigStorage :=
  gatewayConfig.exec (.emptyProxy owner) calls

theorem configCall_of_ok {i : Address × GatewayConfigCall} {s s' : GatewayConfigStorage}
    {o : Unit} (h : gatewayConfig.call i s = .ok (o, s')) : configCall i.1 i.2 s = .ok s' := by
  simp only [gatewayConfig, bind_eq_ok, pure_eq_ok] at h
  obtain ⟨r, hr, h⟩ := h
  cases h
  exact hr

theorem listed (owner : Address) (calls : List (Address × GatewayConfigCall)) :
    Listed (configAfter owner calls) := by
  apply exec_invariant
  · exact ⟨⟨[], rfl⟩, ⟨[], rfl⟩, fun h => absurd (show 1 = 4 from h) (by decide)⟩
  · exact fun i s o s' hs h => (configCall_spec hs (configCall_of_ok h)).1

end Fhevm.Gateway
