import Fhevm.Sdk.EncryptedInput

/-!
# Limits on encrypted inputs

The builder checks the bits and the number of the values of a list, but it counts a boolean as one
bit when it looks back at what was added, and it takes one value more than the worker and the
verifier on the host chain.

## Main definitions

* `WithinLimits` — a list has at most 2048 encrypted bits and 255 values.
* `EncryptedInputBuilder.Taken` — the input made of a list is not refused for its size.
* `Slips` — a call that the builder takes too much with.
* `after_taken_iff` — sequences of calls that keep all limits.
-/

namespace Fhevm.Sdk

open Foundation Contract Host ZkProof

/-! ## One call -/

/-- A boolean takes 2 encrypted bits. -/
def EncryptionType.encryptedBits : EncryptionType → Nat
  | bit1 => 2
  | type => type.bitWidth

namespace EncryptedInputBuilder

/-- What `check_limit` checks before a value of a type is added. -/
def Fits (b : EncryptedInputBuilder) (type : EncryptionType) : Prop :=
  b.bits.sum + type.encryptedBits ≤ 2048 ∧ b.bits.length + 1 ≤ 256

instance (b : EncryptedInputBuilder) (type : EncryptionType) : Decidable (b.Fits type) :=
  inferInstanceAs (Decidable (_ ∧ _))

/-- The builder with one value more. -/
def pushed (b : EncryptedInputBuilder) (value : EncryptionType × Nat) : EncryptedInputBuilder :=
  { b with builder := b.builder ++ [value], bits := b.bits ++ [value.1.bitWidth] }

end EncryptedInputBuilder

section Calls

variable (T : EncryptionLibrary)

/-- The value that a call is to add, if its argument has one. -/
def BuilderCall.value? : BuilderCall → Option (EncryptionType × Nat)
  | .addBool value => some (.bit1, value.toNat)
  | .addU8 value => some (.bit8, value.toNat)
  | .addU16 value => some (.bit16, value.toNat)
  | .addU32 value => some (.bit32, value.toNat)
  | .addU64 value => some (.bit64, value.toNat)
  | .addU128 value => some (.bit128, value.toNat)
  | .addAddress address =>
    match EncryptedInputBuilder.parseAddress address, T.pushWithNumBits 160 with
    | .ok bytes, .ok _ => some (.bit160, BigEndian.decode (List.replicate 12 0 ++ bytes))
    | _, _ => none
  | .addU256 value =>
    match value.intoU256Bytes with
    | .ok bytes => some (.bit256, BigEndian.decode bytes)
    | .error _ => none
  | .clear => none

end Calls

section Run

variable {T : EncryptionLibrary} {b : EncryptedInputBuilder}

/-- A step is run, and then the rest on what it returns. -/
theorem run_bind {α β : Type} (x : ExceptT SdkError (StateM EncryptedInputBuilder) α)
    (f : α → ExceptT SdkError (StateM EncryptedInputBuilder) β) (b : EncryptedInputBuilder) :
    ExceptT.run (x >>= f) b = ExceptT.bindCont f (ExceptT.run x b).1 (ExceptT.run x b).2 := rfl

theorem run_lift_ok {α β : Type} {r : SdkResult α} {a : α} (h : r = .ok a)
    (f : α → ExceptT SdkError (StateM EncryptedInputBuilder) β) (b : EncryptedInputBuilder) :
    ExceptT.run (ExceptT.mk (pure r) >>= f) b = ExceptT.run (f a) b := by
  rw [h]
  rfl

theorem run_lift_error {α β : Type} {r : SdkResult α} {e : SdkError} (h : r = .error e)
    (f : α → ExceptT SdkError (StateM EncryptedInputBuilder) β) (b : EncryptedInputBuilder) :
    ExceptT.run (ExceptT.mk (pure r) >>= f) b = (.error e, b) := by
  rw [h]
  rfl

theorem run_checkLimit (type : EncryptionType) (b : EncryptedInputBuilder) :
    ∃ e, ExceptT.run (EncryptedInputBuilder.checkLimit type.encryptedBits) b =
      (if b.Fits type then .ok () else .error e, b) := by
  unfold EncryptedInputBuilder.checkLimit
  change ∃ e, ExceptT.run (do
    if b.bits.sum + type.encryptedBits > 2048 then throw _ else _ : BuilderM Unit) b = _
  by_cases hfits : b.Fits type
  · simp only [if_pos hfits, if_neg (Nat.not_lt.mpr hfits.1), if_neg (Nat.not_lt.mpr hfits.2)]
    exact ⟨.encryptionError "", rfl⟩
  · simp only [if_neg hfits]
    split_ifs with hbits hcount
    · exact ⟨_, rfl⟩
    · exact ⟨_, rfl⟩
    · exact absurd ⟨Nat.not_lt.mp hbits, Nat.not_lt.mp hcount⟩ hfits

/-- Nothing happens behind a check that fails. -/
theorem run_of_not_fits {type : EncryptionType} (h : ¬ b.Fits type) (rest : BuilderM Unit) :
    ∃ e, ExceptT.run (do
      EncryptedInputBuilder.checkLimit type.encryptedBits
      rest : BuilderM Unit) b = (.error e, b) := by
  obtain ⟨e, hcheck⟩ := run_checkLimit type b
  rw [if_neg h] at hcheck
  refine ⟨e, ?_⟩
  rw [run_bind, hcheck]
  rfl

theorem run_of_fits {type : EncryptionType} (h : b.Fits type) (rest : BuilderM Unit) :
    ExceptT.run (do
      EncryptedInputBuilder.checkLimit type.encryptedBits
      rest : BuilderM Unit) b = ExceptT.run rest b := by
  obtain ⟨e, hcheck⟩ := run_checkLimit type b
  rw [if_pos h] at hcheck
  rw [run_bind, hcheck]
  rfl

/-- What a call does: nothing else than to clear the builder or to add its value, and if it fails,
then the builder stays as it was. -/
theorem run_cases (T : EncryptionLibrary) (call : BuilderCall) (b : EncryptedInputBuilder) :
    (call = .clear ∧ call.run T b = (.ok (), { b with builder := [], bits := [] })) ∨
      (∃ value, call.value? T = some value ∧ b.Fits value.1 ∧
        call.run T b = (.ok (), b.pushed value)) ∨
      ((∀ value, call.value? T = some value → ¬ b.Fits value.1) ∧
        ∃ e, call.run T b = (.error e, b)) := by
  have hadd : ∀ type value rest, call.value? T = some (type, value) →
      call.run T b = ExceptT.run (do
        EncryptedInputBuilder.checkLimit type.encryptedBits
        rest : BuilderM Unit) b →
      ExceptT.run rest b = (.ok (), b.pushed (type, value)) →
      (∃ value, call.value? T = some value ∧ b.Fits value.1 ∧
        call.run T b = (.ok (), b.pushed value)) ∨
      ((∀ value, call.value? T = some value → ¬ b.Fits value.1) ∧
        ∃ e, call.run T b = (.error e, b)) := by
    intro type value rest hvalue hrun hrest
    by_cases hfits : b.Fits type
    · exact .inl ⟨_, hvalue, hfits, hrun.trans ((run_of_fits hfits rest).trans hrest)⟩
    · obtain ⟨e, hfails⟩ := run_of_not_fits hfits rest
      refine .inr ⟨fun value' hvalue' => ?_, e, hrun.trans hfails⟩
      obtain rfl := Option.some.inj (hvalue.symm.trans hvalue')
      exact hfits
  have hplain : ∀ type value, call.value? T = some (type, value) →
      call.run T b = ExceptT.run (do
        EncryptedInputBuilder.checkLimit type.encryptedBits
        EncryptedInputBuilder.push type value
        EncryptedInputBuilder.pushBits type.bitWidth : BuilderM Unit) b → _ :=
    fun type value hvalue hrun => hadd type value _ hvalue hrun rfl
  cases call with
  | clear => exact .inl ⟨rfl, rfl⟩
  | addAddress address =>
    cases hparse : EncryptedInputBuilder.parseAddress address with
    | error e =>
      refine .inr (.inr ⟨by simp [BuilderCall.value?, hparse], e, ?_⟩)
      exact run_lift_error hparse _ b
    | ok bytes =>
      have hrun := run_lift_ok hparse (fun addressBytes => do
        EncryptedInputBuilder.checkLimit EncryptionType.bit160.encryptedBits
        ExceptT.mk (pure ((T.pushWithNumBits 160).mapError fun e =>
          .encryptionError ("Failed to push address: " ++ e)))
        EncryptedInputBuilder.push .bit160
          (BigEndian.decode (List.replicate 12 0 ++ addressBytes))
        EncryptedInputBuilder.pushBits 160) b
      cases hpush : T.pushWithNumBits 160 with
      | error text =>
        refine .inr (.inr ⟨by simp [BuilderCall.value?, hparse, hpush], ?_⟩)
        by_cases hfits : b.Fits .bit160
        · refine ⟨.encryptionError ("Failed to push address: " ++ text),
            hrun.trans ((run_of_fits hfits _).trans (run_lift_error ?_ _ b))⟩
          rw [hpush]
          rfl
        · obtain ⟨e, hfails⟩ := run_of_not_fits hfits _
          exact ⟨e, hrun.trans hfails⟩
      | ok u =>
        refine .inr (hadd .bit160 (BigEndian.decode (List.replicate 12 0 ++ bytes)) _
          (by simp only [BuilderCall.value?, hparse, hpush]) hrun ?_)
        rw [hpush]
        rfl
  | addU256 value =>
    cases hbytes : value.intoU256Bytes with
    | error e =>
      refine .inr (.inr ⟨by simp [BuilderCall.value?, hbytes], ?_⟩)
      by_cases hfits : b.Fits .bit256
      · exact ⟨e, (run_of_fits hfits _).trans (run_lift_error hbytes _ b)⟩
      · exact run_of_not_fits hfits _
    | ok bytes =>
      exact .inr (hadd .bit256 (BigEndian.decode bytes) _
        (by simp only [BuilderCall.value?, hbytes]) rfl (run_lift_ok hbytes _ b))
  | _ => exact .inr (hplain _ _ rfl rfl)

/-- A call that fails leaves the builder as it was. -/
theorem unchanged_of_error {call : BuilderCall} {e : SdkError} (h : (call.run T b).1 = .error e) :
    (call.run T b).2 = b := by
  obtain ⟨-, hrun⟩ | ⟨value, -, -, hrun⟩ | ⟨-, e', hrun⟩ := run_cases T call b
  · rw [hrun] at h
    cases h
  · rw [hrun] at h
    cases h
  · rw [hrun]

end Run

/-! ## Lists within the limits -/

namespace EncryptedInputBuilder

variable (b : EncryptedInputBuilder)

def encryptedBits : Nat := (b.builder.map fun value => value.1.encryptedBits).sum

structure WithinLimits : Prop where
  bits : b.encryptedBits ≤ 2048
  count : b.builder.length ≤ 255

/-- The widths are those of the values. -/
def Widths : Prop := b.bits = b.builder.map fun value => value.1.bitWidth

variable {b}

/-- Each boolean is recorded with one bit less than it takes. -/
theorem Widths.encryptedBits_eq (h : b.Widths) : b.encryptedBits = b.bits.sum + b.bits.count 1 := by
  have hvalues : ∀ values : List (EncryptionType × Nat),
      (values.map fun value => value.1.encryptedBits).sum =
        (values.map fun value => value.1.bitWidth).sum +
          (values.map fun value => value.1.bitWidth).count 1 := by
    intro values
    induction values with
    | nil => rfl
    | cons value values ih =>
      obtain ⟨type, n⟩ := value
      simp only [List.map_cons, List.sum_cons, List.count_cons, ih]
      cases type <;> simp [EncryptionType.encryptedBits, EncryptionType.bitWidth] <;> omega
  rw [h]
  exact hvalues b.builder

theorem Widths.length_bits (h : b.Widths) : b.bits.length = b.builder.length := by
  rw [h, List.length_map]

theorem Widths.pushed (h : b.Widths) (value : EncryptionType × Nat) : (b.pushed value).Widths := by
  simp only [Widths, EncryptedInputBuilder.pushed, List.map_append, List.map_singleton]
  rw [h]

theorem encryptedBits_pushed (value : EncryptionType × Nat) :
    (b.pushed value).encryptedBits = b.encryptedBits + value.1.encryptedBits := by
  simp [encryptedBits, EncryptedInputBuilder.pushed]

end EncryptedInputBuilder

/-! ## Sequences of calls -/

section Sequences

variable (T : EncryptionLibrary)

/-- A call for which the check passes, though the list has 255 values, or though its booleans take
more bits than are left: the check counts them as one bit each. -/
def Slips (b : EncryptedInputBuilder) (call : BuilderCall) : Prop :=
  ∃ value, call.value? T = some value ∧ b.Fits value.1 ∧
    (b.bits.length = 255 ∨ 2048 < b.bits.sum + b.bits.count 1 + value.1.encryptedBits)

variable {T} {b : EncryptedInputBuilder} {call : BuilderCall} {calls : List BuilderCall}

theorem widths_run (h : b.Widths) : (call.run T b).2.Widths := by
  obtain ⟨-, hrun⟩ | ⟨value, -, -, hrun⟩ | ⟨-, e, hrun⟩ := run_cases T call b
  · rw [hrun]
    rfl
  · rw [hrun]
    exact h.pushed value
  · rw [hrun]
    exact h

/-- A call keeps the limits unless it slips. -/
theorem withinLimits_run (hwidths : b.Widths) (h : b.WithinLimits) :
    (call.run T b).2.WithinLimits ↔ ¬ Slips T b call := by
  have hbits := hwidths.encryptedBits_eq
  have hlength := hwidths.length_bits
  obtain ⟨rfl, hrun⟩ | ⟨value, hvalue, hfits, hrun⟩ | ⟨hno, e, hrun⟩ := run_cases T call b
  · rw [hrun]
    refine iff_of_true ⟨by simp [EncryptedInputBuilder.encryptedBits], by simp⟩ ?_
    rintro ⟨value, hvalue, -⟩
    cases hvalue
  · rw [hrun]
    have hpushed := b.encryptedBits_pushed value
    have hcount : (b.pushed value).builder.length = b.builder.length + 1 := by
      simp [EncryptedInputBuilder.pushed]
    change (b.pushed value).WithinLimits ↔ _
    constructor
    · rintro ⟨hlimit, hnumber⟩ ⟨value', hvalue', -, hslip⟩
      obtain rfl := Option.some.inj (hvalue.symm.trans hvalue')
      omega
    · intro hslip
      have hnot : ¬ (b.bits.length = 255 ∨
          2048 < b.bits.sum + b.bits.count 1 + value.1.encryptedBits) :=
        fun hmore => hslip ⟨value, hvalue, hfits, hmore⟩
      have hcap := h.count
      exact ⟨by omega, by omega⟩
  · rw [hrun]
    refine iff_of_true h ?_
    rintro ⟨value, hvalue, hfits, -⟩
    exact hno value hvalue hfits

theorem after_concat : b.after T (calls ++ [call]) = (call.run T (b.after T calls)).2 := by
  rw [EncryptedInputBuilder.after, List.foldl_append]
  rfl

theorem widths_after (h : b.Widths) (calls : List BuilderCall) : (b.after T calls).Widths := by
  induction calls using List.reverseRecOn with
  | nil => exact h
  | append_singleton past call ih =>
    rw [after_concat]
    exact widths_run ih

/-- The limits are kept throughout exactly if no call slips. -/
theorem withinLimits_after (hwidths : b.Widths) (h : b.WithinLimits) :
    (∀ past, past <+: calls → (b.after T past).WithinLimits) ↔
      ∀ past call, past ++ [call] <+: calls → ¬ Slips T (b.after T past) call := by
  constructor
  · intro hall past call hpast
    have hbefore := hall past ((List.prefix_append past [call]).trans hpast)
    have hafter := hall _ hpast
    rw [after_concat] at hafter
    exact (withinLimits_run (widths_after hwidths past) hbefore).mp hafter
  · intro hslips past
    induction past using List.reverseRecOn with
    | nil => exact fun _ => h
    | append_singleton past call ih =>
      intro hpast
      rw [after_concat]
      exact (withinLimits_run (widths_after hwidths past)
        (ih ((List.prefix_append past [call]).trans hpast))).mpr (hslips past call hpast)

end Sequences

/-! ## Inputs -/

/-- An input of the builder is not refused by the worker for the number of its values, nor by the
verifier on the host chain for the index of one of them. -/
structure EncryptedInputBuilder.Taken (b : EncryptedInputBuilder) (keccak256 : Bytes → Bytes32)
    (input : EncryptedInput) : Prop where
  worker : ∀ {L R : Type} (P : ProofLibrary L R) (requestId : Int) (aux : ZkData) (theList : L),
    P.safeDeserializeConformant input.ciphertext = .ok theList →
    P.len theList = b.builder.length →
    (∀ auxDataBytes entries, P.verifyAndExpand theList auxDataBytes = .ok entries →
      entries.length = P.len theList) →
    ∀ len, ZkProof.verifyProof keccak256 P requestId aux input.ciphertext ≠
      .error (.tooManyInputs len)
  verifier : ∀ words : List Bytes32, words.map wordBytes = input.handles →
    ∀ (D : Deployment) (V : SignatureScheme) (context : ContextUserInputs)
      (signatures : List Bytes) (extraData : Bytes) (s : InputVerifierState),
      ∀ handle ∈ words, verifyInput D V context handle
        (inputProofOf words signatures extraData) s ≠ .error .invalidIndex

section Worker

variable {L R : Type} {P : ProofLibrary L R} {keccak256 : Bytes → Bytes32} {requestId : Int}
  {aux : ZkData} {ciphertext : Bytes} {theList : L}

theorem chainIdBytes_error {chainId : Int64} {e : ExecutionError}
    (h : ZkProof.chainIdBytes chainId = .error e) : e = .joinError := by
  simp only [ZkProof.chainIdBytes, bind_eq_error, require_eq_error, pure_ne_error, and_false,
    exists_false, or_false] at h
  exact h.2.symm

theorem extractCtList_error {entries : List (FheType × R)} {len : Nat} :
    extractCtList entries ≠ .error (.tooManyInputs len) := by
  intro h
  obtain ⟨entry, -, hentry⟩ := exists_error_of_mapM h
  unfold extractCt at hentry
  split at hentry <;> cases hentry

/-- A list of at most 255 values is not refused for their number. -/
theorem tryVerify_ne_tooManyInputs (hlist : P.safeDeserializeConformant ciphertext = .ok theList)
    (hlen : P.len theList ≤ 255) (len : Nat) :
    tryVerifyAndExpandCiphertextList P requestId ciphertext aux ≠ .error (.tooManyInputs len) := by
  intro h
  simp only [tryVerifyAndExpandCiphertextList, ZkData.assemble, bind_eq_error, bind_eq_ok,
    pure_ne_error, and_false, exists_false, or_false, mapError_eq_error, mapError_eq_ok,
    hlist] at h
  obtain hchain | ⟨_, -, ⟨_, hlist', -⟩ | ⟨_, hlist', h⟩⟩ := h
  · cases chainIdBytes_error hchain
  · cases hlist'
  · obtain rfl := Except.ok.inj hlist'
    split_ifs at h
    · cases h
    · simp only [bind_eq_error, require_eq_error, mapError_eq_error] at h
      obtain ⟨hmore, -⟩ | ⟨_, -, ⟨_, -, hproof⟩ | ⟨_, -, hextract⟩⟩ := h
      · exact hmore hlen
      · cases hproof
      · exact extractCtList_error hextract

/-- As many ciphertexts are made of a list as it has values. -/
theorem length_expanded (hlist : P.safeDeserializeConformant ciphertext = .ok theList)
    (hexpand : ∀ auxDataBytes entries, P.verifyAndExpand theList auxDataBytes = .ok entries →
      entries.length = P.len theList) {cts : List (SupportedFheCiphertexts R)}
    (h : tryVerifyAndExpandCiphertextList P requestId ciphertext aux = .ok cts) :
    cts.length ≤ P.len theList := by
  by_cases hzero : P.len theList = 0
  · simp only [tryVerifyAndExpandCiphertextList, bind_eq_ok, mapError_eq_ok, hlist,
      Except.ok.injEq, exists_eq_left', if_pos hzero, pure_eq_ok] at h
    obtain ⟨-, -, rfl⟩ := h
    exact Nat.zero_le _
  · obtain ⟨auxDataBytes, entries, -, hentries, hextract⟩ := tryVerifyAndExpand_ok hlist hzero h
    rw [← hexpand _ _ hentries]
    exact (mapM_eq_ok.mp hextract).length_eq.ge

theorem verifyProof_ne_tooManyInputs
    (hlist : P.safeDeserializeConformant ciphertext = .ok theList) (hlen : P.len theList ≤ 255)
    (hexpand : ∀ auxDataBytes entries, P.verifyAndExpand theList auxDataBytes = .ok entries →
      entries.length = P.len theList) (len : Nat) :
    ZkProof.verifyProof keccak256 P requestId aux ciphertext ≠ .error (.tooManyInputs len) := by
  intro h
  simp only [ZkProof.verifyProof, bind_eq_error, pure_ne_error, and_false, exists_false,
    or_false] at h
  obtain h | ⟨cts, hcts, h⟩ := h
  · exact tryVerify_ne_tooManyInputs hlist hlen len h
  · obtain ⟨⟨ct, i⟩, hct, hcreate⟩ := exists_error_of_mapM h
    have hindex := List.mem_zipIdx hct
    have hlength := length_expanded hlist hexpand hcts
    simp only [createCiphertext, bind_eq_error, require_eq_error, pure_ne_error, and_false,
      exists_false, or_false] at hcreate
    obtain ⟨hmore, -⟩ | ⟨_, -, hchain⟩ := hcreate
    · have hmax : MAX_INPUT_INDEX.toNat = 254 := rfl
      omega
    · cases chainIdBytes_error hchain

end Worker

section Verifier

variable {D : Deployment} {V : SignatureScheme} {inputProof : Bytes}

theorem readByte_error {i : Nat} {e : HostError} (h : readByte inputProof i = .error e) :
    e = .panic := by
  unfold readByte at h
  split at h
  · cases h
  · exact (Except.error.inj h).symm

theorem readElement_error {offset n : Nat} {e : HostError}
    (h : readElement inputProof offset n = .error e) : e = .panic := by
  induction n with
  | zero => cases h
  | succ n ih =>
    simp only [readElement, bind_eq_error, pure_ne_error, and_false, exists_false, or_false] at h
    obtain h | ⟨_, -, h⟩ := h
    · exact ih h
    · exact readByte_error h

/-- The loop over the signatures has errors of its own. -/
theorem countSigners_ne_invalidIndex {digest : Bytes32} {signatures : List Bytes}
    {recoveredSigners : List Address} {s : InputVerifierState} :
    countSigners V digest signatures recoveredSigners s ≠ .error .invalidIndex := by
  induction signatures generalizing recoveredSigners s with
  | nil => exact nofun
  | cons signature signatures ih =>
    intro h
    simp only [countSigners, bind_eq_error, require_eq_error] at h
    obtain h | ⟨signer, -, ⟨-, h⟩ | ⟨_, -, h⟩⟩ := h
    · unfold recoverSigner at h
      split at h <;> cases h
    · cases h
    · split_ifs at h
      all_goals first
        | exact ih h
        | exact pure_ne_error h

theorem verifyEIP712_ne_invalidIndex {ctVerif : CiphertextVerification} {signatures : List Bytes}
    {s : InputVerifierState} : verifyEIP712 D V ctVerif signatures s ≠ .error .invalidIndex := by
  intro h
  simp only [verifyEIP712, verifySignaturesDigest, bind_eq_error, require_eq_error,
    pure_ne_error, and_false, exists_false, or_false] at h
  obtain (⟨-, h⟩ | ⟨_, -, ⟨-, h⟩ | ⟨_, -, h⟩⟩) | ⟨_, -, -, h⟩ := h
  · cases h
  · cases h
  · exact countSigners_ne_invalidIndex h
  · cases h

/-- An index is not refused if the proof says that it has more handles. -/
theorem verifyInput_ne_invalidIndex {context : ContextUserInputs} {handle : Bytes32}
    {numHandles : Nat} {s : InputVerifierState} (hread : readByte inputProof 0 = .ok numHandles)
    (hindex : (indexHandle handle).toNat < numHandles) (hmax : (indexHandle handle).toNat ≤ 254) :
    verifyInput D V context handle inputProof s ≠ .error .invalidIndex := by
  intro h
  have hin : ¬ (numHandles ≤ (indexHandle handle).toNat ∨ 254 < (indexHandle handle).toNat) := by
    omega
  simp only [verifyInput, bind_eq_error, require_eq_error] at h
  obtain ⟨-, h⟩ | ⟨_, -, h⟩ := h
  · cases h
  split_ifs at h
  · simp only [readCachedProof, bind_eq_error, require_eq_error, hread, reduceCtorEq, false_or,
      Except.ok.injEq, exists_eq_left', hin, pure_ne_error, and_false, exists_false, or_false] at h
    obtain hno | ⟨_, -, helement⟩ := h
    · exact hno.1 id
    · exact absurd (readElement_error helement) (by rintro ⟨⟩)
  · simp only [Host.verifyProof, bind_eq_error, require_eq_error, hread, reduceCtorEq, false_or,
      Except.ok.injEq, exists_eq_left', hin, and_false, pure_ne_error, exists_false, or_false] at h
    obtain ⟨_, -, hsigners | ⟨_, -, hno | ⟨_, -, _, -, _, -, hverify⟩⟩⟩ := h
    · exact absurd (readByte_error hsigners) (by rintro ⟨⟩)
    · exact hno.1 id
    · exact verifyEIP712_ne_invalidIndex hverify

/-- Each handle of the SDK has its position as its index. -/
theorem index_of_mem_handles {keccak256 : Bytes → Bytes32} {ciphertext : Bytes}
    {types : List EncryptionType} {acl : Address} {chainId : UInt64} {handles : List Bytes}
    {words : List Bytes32} (hlen : types.length ≤ 255)
    (h : computeHandles keccak256 ciphertext (types.map EncryptionType.bitWidth) acl chainId
      CIPHERTEXT_VERSION = .ok handles) (hwords : words.map wordBytes = handles)
    {handle : Bytes32} (hhandle : handle ∈ words) :
    words.length = types.length ∧ (indexHandle handle).toNat < types.length := by
  have hall := computeHandles_eq_ok.mp h
  have hlength : words.length = types.length := by
    simpa [← hwords] using hall.length_eq.symm
  obtain ⟨i, hi, rfl⟩ := List.mem_iff_getElem.mp hhandle
  have hi' : i < types.length := hlength ▸ hi
  subst hwords
  have hget := (List.forall₂_iff_get.mp hall).2 i (by simpa using hi') (by simpa using hi)
  simp only [List.get_eq_getElem, List.getElem_zipIdx, List.getElem_map, Nat.zero_add] at hget
  have hindex := inputHandle_of_bytes (by omega) chainId.toNat_lt (computeHandle_eq hget)
  refine ⟨hlength, ?_⟩
  rw [hindex.index_eq]
  exact hi'

end Verifier

/-- The input that is made of a list within the limits is taken. -/
theorem taken_of_withinLimits {S : EncryptionLibrary} {b : EncryptedInputBuilder}
    (hwidths : b.Widths) (hb : b.WithinLimits) {keccak256 : Bytes → Bytes32}
    {contractAddress userAddress : Address} {input : EncryptedInput}
    (h : b.encryptAndProveFor S keccak256 contractAddress userAddress = .ok input) :
    b.Taken keccak256 input := by
  simp only [EncryptedInputBuilder.encryptAndProveFor, bind_eq_ok, pure_eq_ok] at h
  obtain ⟨ciphertext, -, handles, hhandles, rfl⟩ := h
  constructor
  · intro L R P requestId aux theList hlist hlen hexpand len
    exact verifyProof_ne_tooManyInputs hlist (hlen.trans_le hb.count) hexpand len
  · intro words hwords D V context signatures extraData s handle hhandle
    have htypes : b.getBits = (b.builder.map Prod.fst).map EncryptionType.bitWidth := by
      rw [List.map_map]
      exact hwidths
    rw [htypes] at hhandles
    obtain ⟨hlength, hindex⟩ :=
      index_of_mem_handles (by simpa using hb.count) hhandles hwords hhandle
    rw [List.length_map] at hlength hindex
    have hcount := hb.count
    have hread : readByte (inputProofOf words signatures extraData) 0 = .ok words.length :=
      readByte_eq_ok.mpr ⟨_, rfl, by rw [UInt8.toNat_ofNat']; omega⟩
    exact verifyInput_ne_invalidIndex hread (by omega) (by omega)

/-- In every sequence of calls, all lists have at most 2048 encrypted bits and 255 values, and all
inputs made of them are taken, exactly if no call slips. A call that fails leaves the builder as it
was. -/
theorem after_taken_iff (T : EncryptionLibrary) (aclContractAddress : Address) (chainId : UInt64)
    (calls : List BuilderCall) :
    ((∀ past, past <+: calls → ∀ b,
        (EncryptedInputBuilder.new aclContractAddress chainId).after T past = b →
          b.WithinLimits ∧ ∀ keccak256 contractAddress userAddress input,
            b.encryptAndProveFor T keccak256 contractAddress userAddress = .ok input →
              b.Taken keccak256 input) ↔
      ∀ past call, past ++ [call] <+: calls →
        ¬ Slips T ((EncryptedInputBuilder.new aclContractAddress chainId).after T past) call) ∧
    ∀ (b : EncryptedInputBuilder) (call : BuilderCall) (e : SdkError),
      (call.run T b).1 = .error e → (call.run T b).2 = b := by
  have hwidths : (EncryptedInputBuilder.new aclContractAddress chainId).Widths := rfl
  have hnew : (EncryptedInputBuilder.new aclContractAddress chainId).WithinLimits :=
    ⟨Nat.zero_le _, Nat.zero_le _⟩
  refine ⟨?_, fun b call e herror => unchanged_of_error herror⟩
  rw [← withinLimits_after hwidths hnew]
  constructor
  · intro h past hpast
    exact (h past hpast _ rfl).1
  · rintro h past hpast _ rfl
    exact ⟨h past hpast, fun keccak256 contractAddress userAddress input hinput =>
      taken_of_withinLimits (widths_after hwidths past) (h past hpast) hinput⟩

/-! ## Many booleans -/

theorem after_booleans (T : EncryptionLibrary) {b : EncryptedInputBuilder} {n : Nat}
    (hsum : b.bits.sum + n + 1 ≤ 2048) (hlen : b.bits.length + n ≤ 256) :
    b.after T (List.replicate n (.addBool true)) =
      { b with
        builder := b.builder ++ List.replicate n (.bit1, 1)
        bits := b.bits ++ List.replicate n 1 } := by
  induction n with
  | zero => simp [EncryptedInputBuilder.after]
  | succ n ih =>
    have hfits : (b.after T (List.replicate n (.addBool true))).Fits .bit1 := by
      rw [ih (by omega) (by omega)]
      constructor
      · simp [EncryptionType.encryptedBits]
        omega
      · simp
        omega
    obtain ⟨hclear, -⟩ | ⟨value, hvalue, -, hrun⟩ | ⟨hno, -⟩ :=
      run_cases T (.addBool true) (b.after T (List.replicate n (.addBool true)))
    · cases hclear
    · rw [List.replicate_succ', after_concat, hrun, ih (by omega) (by omega)]
      obtain rfl := Option.some.inj hvalue
      simp [EncryptedInputBuilder.pushed, List.replicate_succ', EncryptionType.bitWidth]
    · exact absurd hfits (hno (.bit1, 1) rfl)

/-- The builder takes 256 booleans, and the worker does not. -/
theorem booleans_tooMany : ¬ ∀ (T : EncryptionLibrary) (aclContractAddress : Address)
    (chainId : UInt64) (calls : List BuilderCall) (past : List BuilderCall), past <+: calls →
      ((EncryptedInputBuilder.new aclContractAddress chainId).after T past).WithinLimits := by
  intro h
  have hlimits := h ⟨fun _ => .ok (), fun _ _ => .ok [], .ok⟩ 70 7
    (List.replicate 256 (.addBool true)) _ List.prefix_rfl
  rw [after_booleans _ (by simp [EncryptedInputBuilder.new])
    (by simp [EncryptedInputBuilder.new])] at hlimits
  have hcount := hlimits.count
  simp only [List.length_append, List.length_replicate] at hcount
  omega

end Fhevm.Sdk
