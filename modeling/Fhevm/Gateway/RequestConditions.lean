import Fhevm.Gateway.Decryption

/-!
# What a decryption request is refused for

Some checks of the gateway on a request for a decryption need nothing but the request: the number of
its handles, contracts and days, the user, and the bits of the types.

## Main definitions

* `DecryptionError.ofRequest` — the errors of these checks.
* `UserConditions`, `PublicConditions` — the requests that pass them.
* `userConditions_iff`, `publicConditions_iff` — the requests that are never refused for them, and
  those that are never accepted.
-/

namespace Fhevm.Gateway

open Foundation Contract Host

/-- The errors that depend on the request alone. Types without a size are left out. -/
def DecryptionError.ofRequest : DecryptionError → Bool
  | .emptyCtHandles => true
  | .emptyCtHandleContractPairs => true
  | .maxDecryptionRequestBitSizeExceeded _ _ => true
  | .emptyContractAddresses => true
  | .contractAddressesMaxLengthExceeded _ _ => true
  | .invalidNullDurationDays => true
  | .maxDurationDaysExceeded _ _ => true
  | .userAddressInContractAddresses _ _ => true
  | .contractNotInContractAddresses _ _ => true
  | _ => false

/-! ## Bits -/

def bitSizeOf (ctHandle : Bytes32) : DecryptionResult Nat := do
  let fheType ← fheTypeOf ctHandle
  getBitSize fheType

/-- The bits of the handles, if all their types have a size. -/
def WithinBits (ctHandles : List Bytes32) : Prop :=
  ∀ sizes, ctHandles.mapM bitSizeOf = .ok sizes → sizes.sum ≤ MAX_DECRYPTION_REQUEST_BITS

theorem ofRequest_of_bitSizeOf {ctHandle : Bytes32} {e : DecryptionError}
    (h : bitSizeOf ctHandle = .error e) : e.ofRequest = false := by
  simp only [bitSizeOf, bind_eq_error] at h
  obtain h | ⟨fheType, -, h⟩ := h
  · unfold fheTypeOf at h
    split at h <;> cases h
    rfl
  · cases fheType <;> cases h <;> rfl

theorem mapM_bitSizeOf_cons {ctHandle : Bytes32} {ctHandles : List Bytes32} {sizes : List Nat} :
    (ctHandle :: ctHandles).mapM bitSizeOf = .ok sizes ↔
      ∃ size rest, bitSizeOf ctHandle = .ok size ∧ ctHandles.mapM bitSizeOf = .ok rest ∧
        sizes = size :: rest := by
  simp only [List.mapM_cons, bind_eq_ok, pure_eq_ok]
  constructor
  · rintro ⟨size, hsize, rest, hrest, rfl⟩
    exact ⟨size, rest, hsize, hrest, rfl⟩
  · rintro ⟨size, rest, hsize, hrest, rfl⟩
    exact ⟨size, hsize, rest, hrest, rfl⟩

/-- The bits of the handles behind those counted so far. -/
def BitsFrom (ctHandles : List Bytes32) (totalBitSize total : Nat) : Prop :=
  ∃ sizes, ctHandles.mapM bitSizeOf = .ok sizes ∧ total = totalBitSize + sizes.sum

theorem BitsFrom.cons {ctHandle : Bytes32} {ctHandles : List Bytes32}
    {fheType : FheType} {size totalBitSize total : Nat} (htype : fheTypeOf ctHandle = .ok fheType)
    (hsize : getBitSize fheType = .ok size)
    (h : BitsFrom ctHandles (totalBitSize + size) total) :
    BitsFrom (ctHandle :: ctHandles) totalBitSize total := by
  obtain ⟨sizes, hsizes, rfl⟩ := h
  refine ⟨size :: sizes, mapM_bitSizeOf_cons.mpr ⟨size, sizes, ?_, hsizes, rfl⟩, ?_⟩
  · exact bind_eq_ok.mpr ⟨fheType, htype, hsize⟩
  · rw [List.sum_cons, Nat.add_assoc]

theorem withinBits_iff {ctHandles : List Bytes32} {total : Nat} (h : BitsFrom ctHandles 0 total) :
    WithinBits ctHandles ↔ total ≤ MAX_DECRYPTION_REQUEST_BITS := by
  obtain ⟨sizes, hsizes, rfl⟩ := h
  rw [Nat.zero_add]
  constructor
  · exact fun hall => hall sizes hsizes
  · rintro hle sizes' hsizes'
    obtain rfl := Except.ok.inj (hsizes.symm.trans hsizes')
    exact hle

/-! ## Public requests -/

section Public

variable {acl : MultichainACLAllows} {ctHandles : List Bytes32} {totalBitSize : Nat}

theorem conformancePublic_bits (h : conformancePublic acl ctHandles totalBitSize = .ok ()) :
    ∃ total, BitsFrom ctHandles totalBitSize total ∧ total ≤ MAX_DECRYPTION_REQUEST_BITS := by
  induction ctHandles generalizing totalBitSize with
  | nil =>
    simp only [conformancePublic, checkTotalBitSize, require_eq_ok] at h
    exact ⟨totalBitSize, ⟨[], rfl, rfl⟩, Nat.not_lt.mp h⟩
  | cons ctHandle ctHandles ih =>
    simp only [conformancePublic, bind_eq_ok] at h
    obtain ⟨fheType, htype, size, hsize, _, -, hrest⟩ := h
    obtain ⟨total, hbits, hle⟩ := ih hrest
    exact ⟨total, hbits.cons htype hsize, hle⟩

/-- Of the errors that depend on the request alone, the loop has the one on the bits. -/
theorem conformancePublic_error {e : DecryptionError}
    (h : conformancePublic acl ctHandles totalBitSize = .error e) (he : e.ofRequest = true) :
    ∃ total, BitsFrom ctHandles totalBitSize total ∧ MAX_DECRYPTION_REQUEST_BITS < total := by
  induction ctHandles generalizing totalBitSize with
  | nil =>
    simp only [conformancePublic, checkTotalBitSize, require_eq_error, not_not] at h
    exact ⟨totalBitSize, ⟨[], rfl, rfl⟩, h.1⟩
  | cons ctHandle ctHandles ih =>
    have hsized : ∀ e', bitSizeOf ctHandle = .error e' → e ≠ e' := by
      rintro e' he' rfl
      rw [ofRequest_of_bitSizeOf he'] at he
      cases he
    simp only [conformancePublic, bind_eq_error, require_eq_error] at h
    obtain h | ⟨fheType, htype, h | ⟨size, hsize, ⟨-, rfl⟩ | ⟨_, -, h⟩⟩⟩ := h
    · exact absurd rfl (hsized e (bind_eq_error.mpr (.inl h)))
    · exact absurd rfl (hsized e (bind_eq_error.mpr (.inr ⟨fheType, htype, h⟩)))
    · cases he
    · obtain ⟨total, hbits, hlt⟩ := ih h
      exact ⟨total, hbits.cons htype hsize, hlt⟩

/-- A request for a public decryption that passes the checks. -/
structure PublicConditions (ctHandles : List Bytes32) : Prop where
  handles : ctHandles ≠ []
  bits : WithinBits ctHandles

variable {env : RequestEnv} {s : DecryptionStorage} {extraData : Bytes}

/-- A request is accepted only with the conditions. -/
theorem PublicConditions.of_accepted {out : List DecryptionEvent × DecryptionStorage}
    (h : publicDecryptionRequest ctHandles extraData env s = .ok out) :
    PublicConditions ctHandles := by
  simp only [publicDecryptionRequest, bind_eq_ok, require_eq_ok] at h
  obtain ⟨_, -, _, hne, _, hconf, -⟩ := h
  obtain ⟨total, hbits, hle⟩ := conformancePublic_bits hconf
  exact ⟨hne, (withinBits_iff hbits).mpr hle⟩

theorem checkCtMaterialKeyIds_error {materials : List CiphertextMaterial} {e : DecryptionError}
    (h : checkCtMaterialKeyIds materials = .error e) : e.ofRequest = false := by
  cases materials with
  | nil => cases h
  | cons first others =>
    rw [checkCtMaterialKeyIds] at h
    induction others with
    | nil => cases h
    | cons material others ih =>
      obtain h | ⟨_, -, h⟩ := bind_eq_error.mp h
      · rw [← (require_eq_error.mp h).2]
        rfl
      · exact ih h

theorem increment_error {w n : Nat} {panic e : DecryptionError}
    (h : increment w n panic = .error e) : e = panic := by
  simp only [increment, bind_eq_error, require_eq_error, pure_ne_error, and_false, exists_false,
    or_false] at h
  exact h.2.symm

/-- With the conditions, a request is refused for other reasons only. -/
theorem PublicConditions.not_refused (h : PublicConditions ctHandles) {e : DecryptionError}
    (herror : publicDecryptionRequest ctHandles extraData env s = .error e) :
    e.ofRequest = false := by
  by_contra he
  rw [Bool.not_eq_false] at he
  simp only [publicDecryptionRequest, bind_eq_error, mapError_eq_error, require_eq_error,
    pure_ne_error, and_false, exists_false, or_false] at herror
  obtain ⟨_, -, rfl⟩ | ⟨_, -, ⟨hne, -⟩ | ⟨_, -, hconf | ⟨_, -, ⟨_, -, rfl⟩ | ⟨_, -, hkeys |
    ⟨_, -, hinc | ⟨_, -, _, -, rfl⟩⟩⟩⟩⟩⟩ := herror
  · cases he
  · exact hne h.handles
  · obtain ⟨total, hbits, hlt⟩ := conformancePublic_error hconf he
    exact absurd ((withinBits_iff hbits).mp h.bits) (Nat.not_le.mpr hlt)
  · cases he
  · rw [checkCtMaterialKeyIds_error hkeys] at he
    cases he
  · rw [increment_error hinc] at he
    cases he
  · cases he

end Public

/-! ## Requests of users -/

section User

variable {D : GatewayDeployment} {acl : MultichainACLAllows} {contractAddresses : List Address}
  {allowedAddress : Address} {pairs : List CtHandleContractPair} {totalBitSize : Nat}

theorem conformanceUser_bits {ctHandles : List Bytes32}
    (h : conformanceUser D acl contractAddresses allowedAddress pairs totalBitSize =
      .ok ctHandles) :
    ∃ total, BitsFrom (pairs.map CtHandleContractPair.ctHandle) totalBitSize total ∧
      total ≤ MAX_DECRYPTION_REQUEST_BITS := by
  induction pairs generalizing totalBitSize ctHandles with
  | nil =>
    simp only [conformanceUser, checkTotalBitSize, bind_eq_ok, require_eq_ok] at h
    obtain ⟨_, hle, -⟩ := h
    exact ⟨totalBitSize, ⟨[], rfl, rfl⟩, Nat.not_lt.mp hle⟩
  | cons pair pairs ih =>
    simp only [conformanceUser, bind_eq_ok] at h
    obtain ⟨fheType, htype, size, hsize, _, -, _, -, _, -, rest, hrest, -⟩ := h
    obtain ⟨total, hbits, hle⟩ := ih hrest
    exact ⟨total, hbits.cons htype hsize, hle⟩

/-- Of the errors that depend on the request alone, the loop has those on contracts and bits. -/
theorem conformanceUser_error {e : DecryptionError}
    (h : conformanceUser D acl contractAddresses allowedAddress pairs totalBitSize = .error e)
    (he : e.ofRequest = true) :
    (∃ pair ∈ pairs, pair.contractAddress ∉ contractAddresses) ∨
      ∃ total, BitsFrom (pairs.map CtHandleContractPair.ctHandle) totalBitSize total ∧
        MAX_DECRYPTION_REQUEST_BITS < total := by
  induction pairs generalizing totalBitSize with
  | nil =>
    simp only [conformanceUser, checkTotalBitSize, bind_eq_error, require_eq_error, not_not,
      pure_ne_error, and_false, exists_false, or_false] at h
    exact .inr ⟨totalBitSize, ⟨[], rfl, rfl⟩, h.1⟩
  | cons pair pairs ih =>
    have hsized : ∀ e', bitSizeOf pair.ctHandle = .error e' → e ≠ e' := by
      rintro e' he' rfl
      rw [ofRequest_of_bitSizeOf he'] at he
      cases he
    simp only [conformanceUser, checkIsAccountAllowed, bind_eq_error, require_eq_error,
      pure_ne_error, and_false, exists_false, or_false] at h
    obtain h | ⟨fheType, htype, h | ⟨size, hsize, ⟨-, rfl⟩ | ⟨_, -, ⟨-, rfl⟩ | ⟨_, -,
      ⟨hlisted, -⟩ | ⟨_, -, h⟩⟩⟩⟩⟩ := h
    · exact absurd rfl (hsized e (bind_eq_error.mpr (.inl h)))
    · exact absurd rfl (hsized e (bind_eq_error.mpr (.inr ⟨fheType, htype, h⟩)))
    · cases he
    · cases he
    · exact .inl ⟨pair, List.mem_cons_self, hlisted⟩
    · obtain ⟨other, hother, hno⟩ | ⟨total, hbits, hlt⟩ := ih h
      · exact .inl ⟨other, List.mem_cons_of_mem _ hother, hno⟩
      · exact .inr ⟨total, hbits.cons htype hsize, hlt⟩

/-- A request for a user decryption that passes the checks. -/
structure UserConditions (r : UserDecryptionRequest) : Prop where
  handles : r.ctHandleContractPairs ≠ []
  contracts : r.contractsInfo.addresses ≠ []
  contractsMax : r.contractsInfo.addresses.length ≤ MAX_USER_DECRYPT_CONTRACT_ADDRESSES
  listed : ∀ pair ∈ r.ctHandleContractPairs, pair.contractAddress ∈ r.contractsInfo.addresses
  userApart : r.userAddress ∉ r.contractsInfo.addresses
  days : r.requestValidity.durationDays ≠ 0 ∧
    r.requestValidity.durationDays ≤ MAX_USER_DECRYPT_DURATION_DAYS
  bits : WithinBits (r.ctHandleContractPairs.map CtHandleContractPair.ctHandle)

variable {r : UserDecryptionRequest} {env : RequestEnv} {s : DecryptionStorage}

/-- A request is accepted only with the conditions. -/
theorem UserConditions.of_accepted {out : List DecryptionEvent × DecryptionStorage}
    (h : userDecryptionRequest D r env s = .ok out) : UserConditions r := by
  simp only [userDecryptionRequest, extractCtHandlesCheckConformanceUser,
    checkUserDecryptionRequestValidity, bind_eq_ok, require_eq_ok] at h
  obtain ⟨_, -, _, hcontracts, _, hmax, _, ⟨_, hnull, _, hdays, -⟩, _, hapart, ctHandles,
    ⟨_, hne, hconf⟩, -⟩ := h
  obtain ⟨total, hbits, hle⟩ := conformanceUser_bits hconf
  exact ⟨hne, hcontracts, Nat.not_lt.mp hmax, fun pair hpair =>
    ((conformanceUser_ok hconf).2 pair hpair).listed, hapart, ⟨hnull, Nat.not_lt.mp hdays⟩,
    (withinBits_iff hbits).mpr hle⟩

theorem checkUserDecryptionRequestValidity_error {e : DecryptionError} (h : UserConditions r)
    (herror : checkUserDecryptionRequestValidity env.timestamp r.requestValidity = .error e) :
    e.ofRequest = false := by
  simp only [checkUserDecryptionRequestValidity, bind_eq_error, require_eq_error, not_not]
    at herror
  obtain ⟨hnull, -⟩ | ⟨_, -, ⟨hdays, -⟩ | ⟨_, -, ⟨-, rfl⟩ | ⟨_, -, -, rfl⟩⟩⟩ := herror
  · exact absurd hnull h.days.1
  · exact absurd h.days.2 (Nat.not_le.mpr hdays)
  · rfl
  · rfl

theorem extractCtHandlesCheckConformanceUser_error {e : DecryptionError} (h : UserConditions r)
    (herror : extractCtHandlesCheckConformanceUser D acl r.ctHandleContractPairs
      r.contractsInfo.addresses r.userAddress = .error e) : e.ofRequest = false := by
  by_contra he
  rw [Bool.not_eq_false] at he
  obtain hne | ⟨_, -, hconf⟩ := bind_eq_error.mp herror
  · exact (require_eq_error.mp hne).1 h.handles
  · obtain ⟨pair, hpair, hno⟩ | ⟨total, hbits, hlt⟩ := conformanceUser_error hconf he
    · exact hno (h.listed pair hpair)
    · exact absurd ((withinBits_iff hbits).mp h.bits) (Nat.not_le.mpr hlt)

theorem validateUserDecryptRequestEIP712Signature_error {v : UserDecryptRequestVerification}
    {userAddress : Address} {signature : Bytes} {contractsChainId : Nat} {e : DecryptionError}
    (h : validateUserDecryptRequestEIP712Signature D v userAddress signature contractsChainId =
      .error e) : e.ofRequest = false := by
  obtain hrecover | ⟨signer, -, hsigner⟩ := bind_eq_error.mp h
  · obtain ⟨_, -, rfl⟩ := mapError_eq_error.mp hrecover
    rfl
  · rw [← (require_eq_error.mp hsigner).2]
    rfl

/-- With the conditions, a request is refused for other reasons only. -/
theorem UserConditions.not_refused (h : UserConditions r) {e : DecryptionError}
    (herror : userDecryptionRequest D r env s = .error e) : e.ofRequest = false := by
  unfold userDecryptionRequest at herror
  obtain hpaused | ⟨_, -, herror⟩ := bind_eq_error.mp herror
  · obtain ⟨_, -, rfl⟩ := mapError_eq_error.mp hpaused
    rfl
  obtain hnone | ⟨_, -, herror⟩ := bind_eq_error.mp herror
  · exact absurd h.contracts (require_eq_error.mp hnone).1
  obtain hmany | ⟨_, -, herror⟩ := bind_eq_error.mp herror
  · exact absurd (Nat.not_lt.mpr h.contractsMax) (require_eq_error.mp hmany).1
  obtain hvalidity | ⟨_, -, herror⟩ := bind_eq_error.mp herror
  · exact checkUserDecryptionRequestValidity_error h hvalidity
  obtain huser | ⟨_, -, herror⟩ := bind_eq_error.mp herror
  · exact absurd h.userApart (require_eq_error.mp huser).1
  obtain hhandles | ⟨_, -, herror⟩ := bind_eq_error.mp herror
  · exact extractCtHandlesCheckConformanceUser_error h hhandles
  obtain hsignature | ⟨_, -, herror⟩ := bind_eq_error.mp herror
  · exact validateUserDecryptRequestEIP712Signature_error hsignature
  -- What comes behind the checks is the same as for public requests.
  simp only [bind_eq_error, mapError_eq_error, pure_ne_error, and_false, exists_false,
    or_false] at herror
  obtain ⟨_, -, rfl⟩ | ⟨_, -, hkeys | ⟨_, -, hinc | ⟨_, -, _, -, rfl⟩⟩⟩ := herror
  · rfl
  · exact checkCtMaterialKeyIds_error hkeys
  · rw [increment_error hinc]
    rfl
  · rfl

end User

end Fhevm.Gateway
