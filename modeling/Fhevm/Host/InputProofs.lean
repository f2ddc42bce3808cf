import Fhevm.Host.HostChain

/-!
# Remembered proofs

A proof that is remembered is accepted for the handles for which it would be accepted
without the memory, and for no others. The verification leaves the transient storage
as it was, but for the remembered proof, and its outcome depends on the proof,
the user, the contract and the registered signers only.

## Main definitions

* `proofOutcome`, `inputOutcome` — what the verification answers without a memory.
* `SlotsClear` — no mark of a signer is set between calls.
* `Remembers` — the remembered proofs of a run were all verified.
* `Signed` — enough registered signers signed a list with the handle at its index.
-/

namespace Fhevm.Host

open Foundation Contract

variable {D : Deployment} {V : SignatureScheme}

/-! ## Signatures -/

theorem lawfulBEq_address : LawfulBEq Address := inferInstance

theorem lawfulBEq_bytes32 : LawfulBEq Bytes32 := inferInstance

attribute [local instance] lawfulBEq_address lawfulBEq_bytes32

/-- The answer of the loop over the signatures. -/
def signersOutcome (V : SignatureScheme) (isSigner : Address → Bool) (threshold : Nat)
    (digest : Bytes32) : List Bytes → List Address → Result Bool
  | [], _ => .ok false
  | signature :: signatures, recoveredSigners => do
    let signerRecovered ← recoverSigner V digest signature
    require (isSigner signerRecovered = true) (.invalidSigner signerRecovered)
    let recoveredSigners := if signerRecovered ∈ recoveredSigners then recoveredSigners
      else recoveredSigners ++ [signerRecovered]
    if threshold ≤ recoveredSigners.length then
      return true
    else
      signersOutcome V isSigner threshold digest signatures recoveredSigners

/-- No mark of a registered signer is set. -/
def SlotsClear (s : InputVerifierState) : Prop :=
  ∀ a, s.isSigner a = true → s.transient (addressWord a) = 0

/-- The state with the marks of some signers. -/
def InputVerifierState.marked (s : InputVerifierState) (recoveredSigners : List Address) :
    InputVerifierState :=
  { s with transient := fun slot =>
      if slot ∈ recoveredSigners.map addressWord then 1 else s.transient slot }

theorem toNat_addressWord (a : Address) : (addressWord a).toNat = a.toNat := by
  rw [addressWord, BitVec.toNat_setWidth,
    Nat.mod_eq_of_lt (a.isLt.trans (by norm_num : 2 ^ 160 < 2 ^ 256))]

theorem addressWord_injective : Function.Injective addressWord := by
  intro a b h
  have := congrArg BitVec.toNat h
  rw [toNat_addressWord, toNat_addressWord] at this
  exact BitVec.eq_of_toNat_eq this

theorem marked_nil (s : InputVerifierState) : s.marked [] = s := by
  simp [InputVerifierState.marked]

theorem tload_marked {s : InputVerifierState} (recoveredSigners : List Address) {a : Address}
    (hs : SlotsClear s) (ha : s.isSigner a = true) :
    tload a (s.marked recoveredSigners) = decide (a ∈ recoveredSigners) := by
  have hmem : addressWord a ∈ recoveredSigners.map addressWord ↔ a ∈ recoveredSigners :=
    List.mem_map_of_injective addressWord_injective
  by_cases h : a ∈ recoveredSigners
  · simp only [tload, InputVerifierState.marked, if_pos (hmem.mpr h), decide_eq_true h]
    decide
  · simp only [tload, InputVerifierState.marked, if_neg (hmem.not.mpr h), hs a ha,
      decide_eq_false h]
    decide

theorem tstore_marked {s : InputVerifierState} {recoveredSigners : List Address} {a : Address} :
    tstore a 1 (s.marked recoveredSigners) = s.marked (recoveredSigners ++ [a]) := by
  have h : Function.update (s.marked recoveredSigners).transient (addressWord a) 1 =
      (s.marked (recoveredSigners ++ [a])).transient := by
    funext slot
    by_cases hslot : slot = addressWord a
    · subst hslot
      simp [InputVerifierState.marked]
    · simp [InputVerifierState.marked, hslot]
  exact congrArg (fun t => { s with transient := t }) h

/-- Cleaning removes the marks. -/
theorem clean_marked {s : InputVerifierState} {recoveredSigners : List Address}
    (hclear : ∀ a ∈ recoveredSigners, s.transient (addressWord a) = 0) :
    cleanTransientHashMap recoveredSigners (s.marked recoveredSigners) = s := by
  have hclean : ∀ (keys : List Address) (t : InputVerifierState), cleanTransientHashMap keys t =
      { t with transient := fun slot =>
        if slot ∈ keys.map addressWord then 0 else t.transient slot } := by
    intro keys
    induction keys with
    | nil => simp [cleanTransientHashMap]
    | cons key keys ih =>
      intro t
      have ih' := ih (tstore key 0 t)
      simp only [cleanTransientHashMap, List.foldl_cons] at ih' ⊢
      rw [ih']
      congr 1
      funext slot
      by_cases hslot : slot = addressWord key <;> simp [tstore, hslot]
  rw [hclean]
  cases s with
  | mk isSigner threshold transient =>
    congr 1
    funext slot
    by_cases hslot : slot ∈ recoveredSigners.map addressWord
    · obtain ⟨a, ha, rfl⟩ := List.mem_map.mp hslot
      rw [if_pos hslot]
      exact (hclear a ha).symm
    · simp only [InputVerifierState.marked, if_neg hslot]

/-- The loop answers as if there were no marks, and removes those that it sets. -/
theorem countSigners_eq {s : InputVerifierState} (hs : SlotsClear s) {digest : Bytes32}
    (signatures : List Bytes) (recoveredSigners : List Address)
    (hrecovered : ∀ a ∈ recoveredSigners, s.isSigner a = true) :
    countSigners V digest signatures recoveredSigners (s.marked recoveredSigners) =
      (signersOutcome V s.isSigner s.threshold digest signatures recoveredSigners).map
        (fun b => (b, s)) := by
  induction signatures generalizing recoveredSigners with
  | nil =>
    rw [countSigners, signersOutcome, clean_marked fun a ha => hs a (hrecovered a ha)]
    rfl
  | cons signature signatures ih =>
    rw [countSigners, signersOutcome]
    cases hrecover : recoverSigner V digest signature with
    | error e => rfl
    | ok signer =>
      by_cases hsigner : s.isSigner signer = true
      · have hcheck : require ((s.marked recoveredSigners).isSigner signer = true)
            (HostError.invalidSigner signer) = .ok () := require_eq_ok.mpr hsigner
        have hcheck' : require (s.isSigner signer = true) (HostError.invalidSigner signer) =
            .ok () := require_eq_ok.mpr hsigner
        generalize hnext : (if signer ∈ recoveredSigners then recoveredSigners
          else recoveredSigners ++ [signer]) = next
        have hpair : (if decide (signer ∈ recoveredSigners) = true
            then (recoveredSigners, s.marked recoveredSigners)
            else (recoveredSigners ++ [signer], tstore signer 1 (s.marked recoveredSigners))) =
              (next, s.marked next) := by
          rw [← hnext]
          by_cases hmem : signer ∈ recoveredSigners
          · simp [hmem]
          · simp only [hmem, decide_false, Bool.false_eq_true, if_false, tstore_marked]
        have hnextSigners : ∀ a ∈ next, s.isSigner a = true := by
          rw [← hnext]
          split_ifs
          · exact hrecovered
          · intro a ha
            rcases List.mem_append.mp ha with ha | ha
            · exact hrecovered a ha
            · rwa [List.mem_singleton.mp ha]
        simp only [bind, Except.bind, hcheck, hcheck', tload_marked recoveredSigners hs hsigner,
          hpair, hnext]
        have hthreshold : (s.marked next).threshold = s.threshold := rfl
        by_cases hquorum : s.threshold ≤ next.length
        · rw [hthreshold, if_pos hquorum, if_pos hquorum,
            clean_marked fun a ha => hs a (hnextSigners a ha)]
          rfl
        · rw [hthreshold, if_neg hquorum, if_neg hquorum]
          exact ih next hnextSigners
      · have hcheck : require ((s.marked recoveredSigners).isSigner signer = true)
            (HostError.invalidSigner signer) = .error (.invalidSigner signer) :=
          require_eq_error.mpr ⟨hsigner, rfl⟩
        have hcheck' : require (s.isSigner signer = true) (HostError.invalidSigner signer) =
            .error (.invalidSigner signer) := require_eq_error.mpr ⟨hsigner, rfl⟩
        simp only [bind, Except.bind, hcheck, hcheck']
        rfl

/-- A positive answer stands for as many distinct registered signers as the threshold. -/
theorem signersOutcome_true {isSigner : Address → Bool} {threshold : Nat} {digest : Bytes32}
    {all : List Bytes} (signatures : List Bytes) (hall : signatures ⊆ all)
    (recoveredSigners : List Address) (hnodup : recoveredSigners.Nodup)
    (hsigned : ∀ a ∈ recoveredSigners, isSigner a = true ∧ ∃ signature ∈ all,
      V.recover digest signature = some a)
    (h : signersOutcome V isSigner threshold digest signatures recoveredSigners = .ok true) :
    ∃ signers : Finset Address, threshold ≤ signers.card ∧ ∀ a ∈ signers, isSigner a = true ∧
      ∃ signature ∈ all, V.recover digest signature = some a := by
  induction signatures generalizing recoveredSigners with
  | nil => cases h
  | cons signature signatures ih =>
    simp only [signersOutcome, bind_eq_ok, require_eq_ok, exists_const] at h
    obtain ⟨signer, hrecover, hsigner, h⟩ := h
    have hvalid : V.recover digest signature = some signer := by
      unfold recoverSigner at hrecover
      cases hv : V.recover digest signature <;> simp_all
    generalize hnext : (if signer ∈ recoveredSigners then recoveredSigners
      else recoveredSigners ++ [signer]) = next at h
    have hnextNodup : next.Nodup := by
      rw [← hnext]
      split_ifs with hmem
      · exact hnodup
      · exact List.nodup_append.mpr ⟨hnodup, List.nodup_singleton _, by
          rintro a ha b hb rfl
          exact hmem (List.mem_singleton.mp hb ▸ ha)⟩
    obtain ⟨hmem, hall⟩ := List.cons_subset.mp hall
    have hnextSigned : ∀ a ∈ next, isSigner a = true ∧ ∃ signature ∈ all,
        V.recover digest signature = some a := by
      rw [← hnext]
      split_ifs
      · exact hsigned
      · intro a ha
        rcases List.mem_append.mp ha with ha | ha
        · exact hsigned a ha
        · rw [List.mem_singleton.mp ha]
          exact ⟨hsigner, signature, hmem, hvalid⟩
    split_ifs at h with hquorum
    · refine ⟨next.toFinset, ?_, fun a ha => hnextSigned a (List.mem_toFinset.mp ha)⟩
      rwa [List.toFinset_card_of_nodup hnextNodup]
    · exact ih hall next hnextNodup hnextSigned h

/-- The signatures of distinct registered signers are accepted if they are as many as the
threshold. -/
theorem signersOutcome_of_distinct {isSigner : Address → Bool} {threshold : Nat}
    {digest : Bytes32} {signatures : List Bytes} {signers : List Address}
    (hrecover : List.Forall₂ (fun signature a => V.recover digest signature = some a) signatures
      signers)
    (hsigners : ∀ a ∈ signers, isSigner a = true) (hpos : signers ≠ [])
    (recoveredSigners : List Address) (hnodup : (recoveredSigners ++ signers).Nodup)
    (hthreshold : threshold ≤ recoveredSigners.length + signers.length) :
    signersOutcome V isSigner threshold digest signatures recoveredSigners = .ok true := by
  induction hrecover generalizing recoveredSigners with
  | nil => exact absurd rfl hpos
  | @cons signature signer signatures signers hvalid _ ih =>
    obtain ⟨hsigner, hrest⟩ := List.forall_mem_cons.mp hsigners
    have hfresh : signer ∉ recoveredSigners := fun hmem =>
      (List.nodup_append.mp hnodup).2.2 signer hmem signer List.mem_cons_self rfl
    have hfound : recoverSigner V digest signature = .ok signer := by
      rw [recoverSigner, hvalid]
    simp only [signersOutcome, bind_eq_ok, require_eq_ok, exists_const]
    refine ⟨signer, hfound, hsigner, ?_⟩
    split_ifs with hquorum
    · rfl
    · -- the threshold is not reached, so signers are left
      rw [List.length_append, List.length_singleton] at hquorum
      rw [List.length_cons] at hthreshold
      have hleft : signers ≠ [] := by
        apply List.ne_nil_of_length_pos
        omega
      apply ih hrest hleft
      · rwa [List.append_assoc, List.singleton_append]
      · rw [List.length_append, List.length_singleton]
        omega

/-- Where no mark is set, the loop answers so and leaves the state as it is. -/
theorem countSigners_nil {s : InputVerifierState} (hs : SlotsClear s) (digest : Bytes32)
    (signatures : List Bytes) : countSigners V digest signatures [] s =
      (signersOutcome V s.isSigner s.threshold digest signatures []).map (fun b => (b, s)) := by
  have hmarked : countSigners V digest signatures [] (s.marked []) =
      (signersOutcome V s.isSigner s.threshold digest signatures []).map
        (fun b => (b, s)) := countSigners_eq hs signatures [] (by simp)
  rwa [marked_nil] at hmarked

/-! ## Proofs -/

/-- What the coprocessors signed. -/
def signedData (D : Deployment) (context : ContextUserInputs) (inputProof : Bytes)
    (numHandles numSigners : Nat) : CiphertextVerification where
  ctHandles := proofHandles inputProof numHandles
  userAddress := context.userAddress
  contractAddress := context.contractAddress
  contractChainId := D.chainid
  extraData := inputProof.drop (2 + 32 * numHandles + 65 * numSigners)

/-- The part of the verification that does not depend on the index. -/
def signaturesOutcome (D : Deployment) (V : SignatureScheme) (isSigner : Address → Bool)
    (threshold : Nat) (context : ContextUserInputs) (inputProof : Bytes)
    (numHandles numSigners : Nat) : Result (List Bytes32) := do
  require (¬ inputProof.length < 2 + 32 * numHandles + 65 * numSigners) .deserializingInputProofFail
  let listHandles := proofHandles inputProof numHandles
  require (∀ element ∈ listHandles, handleVersion element = HANDLE_VERSION) .invalidHandleVersion
  let signatures := proofSignatures inputProof numHandles numSigners
  require (signatures ≠ []) .zeroSignature
  require (¬ signatures.length < threshold) (.signatureThresholdNotReached signatures.length)
  let isVerified ← signersOutcome V isSigner threshold (hashEIP712InputVerification D V
    (signedData D context inputProof numHandles numSigners)) signatures []
  require (isVerified = true) .signaturesVerificationFailed
  return listHandles

/-- The answer of the verification of a proof. -/
def proofOutcome (D : Deployment) (V : SignatureScheme) (isSigner : Address → Bool)
    (threshold : Nat) (context : ContextUserInputs) (indexHandle : Nat) (inputProof : Bytes) :
    Result (List Bytes32) := do
  require (inputProof.length ≠ 0) .emptyInputProof
  let numHandles ← readByte inputProof 0
  let numSigners ← readByte inputProof 1
  require (¬ (numHandles ≤ indexHandle ∨ 254 < indexHandle)) .invalidIndex
  signaturesOutcome D V isSigner threshold context inputProof numHandles numSigners

/-- The answer to an input handle without a memory. -/
def inputOutcome (D : Deployment) (V : SignatureScheme) (isSigner : Address → Bool)
    (threshold : Nat) (context : ContextUserInputs) (inputHandle : Bytes32) (inputProof : Bytes) :
    Result Bytes32 := do
  require ((recoveredChainId inputHandle).setWidth 256 = D.chainid) .invalidChainId
  let listHandles ← proofOutcome D V isSigner threshold context (indexHandle inputHandle).toNat
    inputProof
  require (listHandles[(indexHandle inputHandle).toNat]? = some inputHandle) .invalidInputHandle
  return inputHandle

/-- A `require` at the front of two computations that are otherwise related. -/
theorem require_bind_map {α β : Type} {p : Prop} [Decidable p] {e : HostError}
    {x : Result α} {y : Result β} {f : β → α} (h : p → x = y.map f) :
    (do require p e; x) = (do require p e; y : Result β).map f := by
  by_cases hp : p
  · simp only [require, hp, if_true]
    exact h hp
  · simp only [require, hp, if_false]
    rfl

theorem bind_map {α β γ : Type} {x : Result γ} {g : γ → Result α} {k : γ → Result β} {f : β → α}
    (h : ∀ c, x = .ok c → g c = (k c).map f) : (x >>= g) = (x >>= k).map f := by
  cases x with
  | error e => rfl
  | ok c => exact h c rfl

/-- The verification of a proof leaves the state alone. -/
theorem verifyProof_eq {s : InputVerifierState} (hs : SlotsClear s) {context : ContextUserInputs}
    {index : Nat} {inputProof : Bytes} :
    verifyProof D V context index inputProof s =
      (proofOutcome D V s.isSigner s.threshold context index inputProof).map (fun l => (l, s)) := by
  unfold verifyProof proofOutcome signaturesOutcome
  refine require_bind_map fun _ => bind_map fun numHandles _ => bind_map fun numSigners _ =>
    require_bind_map fun _ => require_bind_map fun _ => require_bind_map fun _ => ?_
  simp only [verifyEIP712, verifySignaturesDigest, signedData, countSigners_nil hs]
  generalize signersOutcome V s.isSigner s.threshold _ _ [] = verified
  simp only [require]
  split_ifs
  all_goals
    cases verified with
    | error e => rfl
    | ok b => cases b <;> rfl

/-- What an accepted proof is made of. Its acceptance does not depend on the index. -/
theorem proofOutcome_eq_ok {isSigner : Address → Bool} {threshold index : Nat}
    {context : ContextUserInputs} {inputProof : Bytes} {listHandles : List Bytes32} :
    proofOutcome D V isSigner threshold context index inputProof = .ok listHandles ↔
      ∃ numHandles numSigners, readByte inputProof 0 = .ok numHandles ∧
        readByte inputProof 1 = .ok numSigners ∧ (index < numHandles ∧ index ≤ 254) ∧
          signaturesOutcome D V isSigner threshold context inputProof numHandles numSigners =
            .ok listHandles := by
  simp only [proofOutcome, bind_eq_ok, require_eq_ok, exists_const]
  constructor
  · rintro ⟨-, numHandles, hhandles, numSigners, hsigners, hindex, h⟩
    exact ⟨numHandles, numSigners, hhandles, hsigners, by omega, h⟩
  · rintro ⟨numHandles, numSigners, hhandles, hsigners, hindex, h⟩
    refine ⟨?_, numHandles, hhandles, numSigners, hsigners, by omega, h⟩
    intro hnil
    rw [List.length_eq_zero_iff.mp hnil] at hhandles
    cases hhandles

theorem signaturesOutcome_eq_ok {isSigner : Address → Bool} {threshold numHandles numSigners : Nat}
    {context : ContextUserInputs} {inputProof : Bytes} {listHandles : List Bytes32}
    (h : signaturesOutcome D V isSigner threshold context inputProof numHandles numSigners =
      .ok listHandles) :
    2 + 32 * numHandles + 65 * numSigners ≤ inputProof.length ∧
      listHandles = proofHandles inputProof numHandles ∧
        signersOutcome V isSigner threshold (hashEIP712InputVerification D V
          (signedData D context inputProof numHandles numSigners))
            (proofSignatures inputProof numHandles numSigners) [] = .ok true := by
  simp only [signaturesOutcome, bind_eq_ok, require_eq_ok, pure_eq_ok, exists_const] at h
  obtain ⟨hlength, -, -, -, verified, hverified, rfl, rfl⟩ := h
  exact ⟨by omega, rfl, hverified⟩

/-! ## Reading a remembered proof -/

/-- A byte is put behind those before it. -/
theorem or_byte {a b n : Nat} (hn : n < 32) (ha : a < 256 ^ n) (hb : b < 256) :
    BitVec.ofNat 256 (a * 256 ^ (32 - n)) ||| (BitVec.ofNat 256 b <<< (8 * (31 - n))) =
      BitVec.ofNat 256 ((a * 256 + b) * 256 ^ (32 - (n + 1))) := by
  obtain ⟨k, hk⟩ : ∃ k, 31 - n = k := ⟨_, rfl⟩
  have hpow : ∀ m : Nat, 256 ^ m = 2 ^ (8 * m) := fun m => by rw [pow_mul]; norm_num
  have hk1 : 32 - n = k + 1 := by omega
  have hk2 : 32 - (n + 1) = k := by omega
  have hwidth : 2 ^ 256 = 256 ^ n * 256 ^ (k + 1) := by
    rw [hpow n, hpow (k + 1), ← pow_add]
    congr 1
    omega
  rw [hk1, hk2, hk]
  have hlow : b * 256 ^ k < 2 ^ (8 * (k + 1)) := by
    rw [← hpow, pow_succ, mul_comm (256 ^ k)]
    exact Nat.mul_lt_mul_of_pos_right hb (by positivity)
  have hhigh : a * 256 ^ (k + 1) < 2 ^ 256 := by
    rw [hwidth]
    exact Nat.mul_lt_mul_of_pos_right ha (by positivity)
  have hlt : b * 256 ^ k < 2 ^ 256 :=
    hlow.trans_le (Nat.pow_le_pow_right (by norm_num) (by omega))
  apply BitVec.eq_of_toNat_eq
  rw [BitVec.toNat_or, BitVec.toNat_shiftLeft, BitVec.toNat_ofNat, BitVec.toNat_ofNat,
    BitVec.toNat_ofNat, Nat.mod_eq_of_lt hhigh, Nat.mod_eq_of_lt (hb.trans (by norm_num)),
    Nat.shiftLeft_eq, ← hpow, Nat.mod_eq_of_lt hlt, hpow (k + 1), mul_comm a,
    ← Nat.two_pow_add_eq_or_of_lt hlow]
  have hsum : 2 ^ (8 * (k + 1)) * a + b * 256 ^ k = (a * 256 + b) * 256 ^ k := by
    rw [← hpow, pow_succ]
    ring
  rw [hsum, Nat.mod_eq_of_lt]
  rw [← hsum, hwidth]
  calc 2 ^ (8 * (k + 1)) * a + b * 256 ^ k < 2 ^ (8 * (k + 1)) * a + 2 ^ (8 * (k + 1)) := by omega
    _ = 2 ^ (8 * (k + 1)) * (a + 1) := by ring
    _ ≤ 2 ^ (8 * (k + 1)) * 256 ^ n := Nat.mul_le_mul_left _ ha
    _ = 256 ^ n * 256 ^ (k + 1) := by rw [hpow (k + 1), mul_comm]

/-- Reading byte by byte gives the bytes read so far, in the front of the word. -/
theorem readElement_eq {inputProof : Bytes} {offset n : Nat} (hn : n ≤ 32)
    (hlength : offset + n ≤ inputProof.length) :
    readElement inputProof offset n = .ok (BitVec.ofNat 256
      (BigEndian.decode ((inputProof.drop offset).take n) * 256 ^ (32 - n))) := by
  induction n with
  | zero => simp [readElement]
  | succ n ih =>
    have hlt : offset + n < inputProof.length := by omega
    have hbyte : readByte inputProof (offset + n) = .ok (inputProof[offset + n]).toNat :=
      readByte_eq_ok.mpr ⟨_, List.getElem?_eq_getElem hlt, rfl⟩
    have htake : (inputProof.drop offset).take (n + 1) =
        (inputProof.drop offset).take n ++ [inputProof[offset + n]] := by
      have hdrop : n < (inputProof.drop offset).length := by
        rw [List.length_drop]
        omega
      rw [List.take_succ_eq_append_getElem hdrop, List.getElem_drop]
    rw [readElement, ih (by omega) (by omega), hbyte, htake, BigEndian.decode_concat]
    have hfront : BigEndian.decode ((inputProof.drop offset).take n) < 256 ^ n := by
      have hlen : ((inputProof.drop offset).take n).length = n := by
        rw [List.length_take, List.length_drop]
        omega
      simpa only [hlen] using BigEndian.decode_lt ((inputProof.drop offset).take n)
    exact congrArg Except.ok (or_byte (by omega) hfront (UInt8.toNat_lt _))

/-- The handles of a proof are words of it. -/
theorem getElem?_proofHandles {inputProof : Bytes} {numHandles index : Nat}
    (hindex : index < numHandles) : (proofHandles inputProof numHandles)[index]? =
      some (readWord inputProof (2 + 32 * index)) := by
  simp [proofHandles, hindex]

/-- A proof that is accepted for one index answers for any index as its remembered copy does. -/
theorem readCachedProof_eq {isSigner : Address → Bool} {threshold index₀ : Nat}
    {context : ContextUserInputs} {inputProof : Bytes} {listHandles : List Bytes32} (index : Nat)
    (h : proofOutcome D V isSigner threshold context index₀ inputProof = .ok listHandles) :
    (∃ e, readCachedProof index inputProof = .error e ∧
        proofOutcome D V isSigner threshold context index inputProof = .error e) ∨
      ∃ element, readCachedProof index inputProof = .ok element ∧
        proofOutcome D V isSigner threshold context index inputProof = .ok listHandles ∧
          listHandles[index]? = some element := by
  obtain ⟨numHandles, numSigners, hhandles, hsigners, -, hsignatures⟩ := proofOutcome_eq_ok.mp h
  obtain ⟨hlength, rfl, -⟩ := signaturesOutcome_eq_ok hsignatures
  by_cases hindex : numHandles ≤ index ∨ 254 < index
  · have hnonempty : inputProof.length ≠ 0 := by omega
    refine .inl ⟨.invalidIndex, ?_, ?_⟩
    · simp [readCachedProof, hhandles, require, hindex, bind, Except.bind]
    · simp [proofOutcome, hhandles, hsigners, require, hindex, hnonempty, bind, Except.bind]
  · have hread : readElement inputProof (2 + index * 32) 32 =
        .ok (readWord inputProof (2 + 32 * index)) := by
      rw [readElement_eq le_rfl (by omega), Nat.sub_self, pow_zero, mul_one, mul_comm index]
      rfl
    refine .inr ⟨_, ?_, proofOutcome_eq_ok.mpr ⟨numHandles, numSigners, hhandles, hsigners,
      by omega, hsignatures⟩, getElem?_proofHandles (by omega)⟩
    simp [readCachedProof, hhandles, require, hindex, hread, bind, Except.bind]

/-! ## Runs -/

/-- A call of the verifier. -/
structure VerifyCall where
  context : ContextUserInputs
  inputHandle : Bytes32
  inputProof : Bytes
deriving DecidableEq, Repr

/-- The verifier within a transaction. -/
def inputVerifier (D : Deployment) (V : SignatureScheme) :
    Contract VerifyCall InputVerifierState HostError Bytes32 where
  call i s := verifyInput D V i.context i.inputHandle i.inputProof s

/-- The verifier at the beginning of a transaction. -/
def emptyCache (isSigner : Address → Bool) (threshold : Nat) : InputVerifierState :=
  ⟨isSigner, threshold, TransientSet.empty⟩

/-- The user, the contract and the proof of a call, which make up its slot. -/
def VerifyCall.proof (i : VerifyCall) : ContextUserInputs × Bytes := (i.context, i.inputProof)

abbrev proofSlot (D : Deployment) (p : ContextUserInputs × Bytes) : Bytes32 := cacheKey D p.1 p.2

/-- The slots of the proofs of a run differ, and lie behind the slots that list them and those of
the signers. -/
structure ProofSlotsApart (D : Deployment) (isSigner : Address → Bool) (calls : List VerifyCall) :
    Prop where
  injOn : Set.InjOn (proofSlot D) {p | ∃ i ∈ calls, i.proof = p}
  large : ∀ i ∈ calls, 2 ^ 160 ≤ (proofSlot D i.proof).toNat ∧
    calls.length < (proofSlot D i.proof).toNat
  signers : ∀ a, isSigner a = true → calls.length < a.toNat

/-- The remembered proofs are proofs of the run that were verified. -/
structure Remembers (D : Deployment) (V : SignatureScheme) (isSigner : Address → Bool)
    (threshold : Nat) (calls : List VerifyCall) (past : List VerifyCall)
    (s : InputVerifierState) : Prop where
  isSigner_eq : s.isSigner = isSigner
  threshold_eq : s.threshold = threshold
  proofs : ∃ pairs : List (ContextUserInputs × Bytes),
    TransientSet.Holds (calls.length + 1) s.transient (pairs.map (proofSlot D)) ∧
      pairs.length ≤ past.length ∧ ∀ p ∈ pairs, (∃ i ∈ calls, i.proof = p) ∧
        ∃ index listHandles,
          proofOutcome D V isSigner threshold p.1 index p.2 = .ok listHandles

section Runs

variable {isSigner : Address → Bool} {threshold : Nat} {calls past : List VerifyCall}
  {s : InputVerifierState}

/-- Proofs are not remembered in slots of signers. -/
theorem Remembers.slotsClear (hapart : ProofSlotsApart D isSigner calls)
    (h : Remembers D V isSigner threshold calls past s) : SlotsClear s := by
  intro a ha
  rw [h.isSigner_eq] at ha
  obtain ⟨pairs, hholds, -, hpairs⟩ := h.proofs
  have hbound : calls.length + 1 ≤ (addressWord a).toNat := by
    rw [toNat_addressWord]
    exact hapart.signers a ha
  by_contra hne
  obtain ⟨p, hmem, hslot⟩ := List.mem_map.mp ((hholds.member _ hbound).mp hne)
  obtain ⟨⟨i, hi, rfl⟩, -⟩ := hpairs p hmem
  have hlarge := (hapart.large i hi).1
  rw [hslot, toNat_addressWord] at hlarge
  exact absurd a.isLt (by omega)

/-- The verifier answers as without a memory, and remembers what it verified. -/
theorem verifyInput_of_remembers (hapart : ProofSlotsApart D isSigner calls)
    (h : Remembers D V isSigner threshold calls past s) {i : VerifyCall} (hi : i ∈ calls)
    (hlength : past.length < calls.length) :
    (verifyInput D V i.context i.inputHandle i.inputProof s).map Prod.fst =
        inputOutcome D V isSigner threshold i.context i.inputHandle i.inputProof ∧
      ∀ result s', verifyInput D V i.context i.inputHandle i.inputProof s = .ok (result, s') →
        Remembers D V isSigner threshold calls (i :: past) s' := by
  obtain ⟨pairs, hholds, hpairsLength, hpairs⟩ := h.proofs
  have hlarge : calls.length + 1 ≤ (proofSlot D i.proof).toNat := (hapart.large i hi).2
  have hverify : ∀ index, verifyProof D V i.context index i.inputProof s =
      (proofOutcome D V isSigner threshold i.context index i.inputProof).map (fun l => (l, s)) := by
    intro index
    rw [verifyProof_eq (h.slotsClear hapart), h.isSigner_eq, h.threshold_eq]
  by_cases hchain : (recoveredChainId i.inputHandle).setWidth 256 = D.chainid
  swap
  · simp [verifyInput, inputOutcome, require, hchain, bind, Except.bind, Except.map]
  cases hcached : TransientSet.contains (cacheKey D i.context i.inputProof) s.transient with
  | true =>
    -- the proof is one that was verified
    obtain ⟨p, hmem, hslot⟩ := List.mem_map.mp ((hholds.contains_iff hlarge).mp hcached)
    obtain ⟨hused, index, listHandles, houtcome⟩ := hpairs p hmem
    obtain rfl : p = i.proof := hapart.injOn hused ⟨i, hi, rfl⟩ hslot
    have hcall : verifyInput D V i.context i.inputHandle i.inputProof s =
        (inputOutcome D V isSigner threshold i.context i.inputHandle i.inputProof).map
          (fun result => (result, s)) := by
      simp only [verifyInput, checkProofCache, hcached, inputOutcome, require, hchain, if_true,
        not_true, if_false, bind, Except.bind]
      rcases readCachedProof_eq (indexHandle i.inputHandle).toNat houtcome with
        ⟨e, hread, hout⟩ | ⟨element, hread, hout, hget⟩
      · simp only [VerifyCall.proof] at hread hout
        rw [hread, hout]
        rfl
      · simp only [VerifyCall.proof] at hread hout
        rw [hread, hout]
        simp only [hget, Option.some.injEq]
        by_cases heq : element = i.inputHandle
        · simp [heq, Except.map, pure, Except.pure]
        · simp [heq, Except.map]
    rw [hcall]
    constructor
    · cases inputOutcome D V isSigner threshold i.context i.inputHandle i.inputProof <;> rfl
    · intro result s' hok
      obtain ⟨_, -, heq⟩ := map_eq_ok.mp hok
      cases heq
      exact ⟨h.isSigner_eq, h.threshold_eq, pairs, hholds, Nat.le_succ_of_le hpairsLength, hpairs⟩
  | false =>
    cases houtcome : proofOutcome D V isSigner threshold i.context
        (indexHandle i.inputHandle).toNat i.inputProof with
    | error e =>
      have hcall : verifyInput D V i.context i.inputHandle i.inputProof s = .error e := by
        simp [verifyInput, checkProofCache, hcached, require, hchain, hverify, houtcome, bind,
          Except.bind, Except.map]
      have hout : inputOutcome D V isSigner threshold i.context i.inputHandle i.inputProof =
          .error e := by
        simp [inputOutcome, require, hchain, houtcome, bind, Except.bind]
      rw [hcall, hout]
      exact ⟨rfl, fun _ _ hok => by cases hok⟩
    | ok listHandles =>
      by_cases hget : listHandles[(indexHandle i.inputHandle).toNat]? = some i.inputHandle
      · have hcall : verifyInput D V i.context i.inputHandle i.inputProof s =
            .ok (i.inputHandle, cacheProof (cacheKey D i.context i.inputProof) s) := by
          simp [verifyInput, checkProofCache, hcached, require, hchain, hverify, houtcome, hget, bind,
            Except.bind, Except.map, pure, Except.pure]
        have hout : inputOutcome D V isSigner threshold i.context i.inputHandle i.inputProof =
            .ok i.inputHandle := by
          simp [inputOutcome, require, hchain, houtcome, hget, bind, Except.bind, pure, Except.pure]
        rw [hcall, hout]
        refine ⟨rfl, ?_⟩
        intro result s' hok
        cases hok
        have hslots : (pairs.map (proofSlot D)).length + 1 < calls.length + 1 := by
          rw [List.length_map]
          omega
        have hrecord := TransientSet.holds_record hholds hlarge hslots
        have hmap : pairs.map (proofSlot D) ++ [proofSlot D i.proof] =
            (pairs ++ [i.proof]).map (proofSlot D) := by
          rw [List.map_append, List.map_singleton]
        rw [hmap] at hrecord
        refine ⟨h.isSigner_eq, h.threshold_eq, pairs ++ [i.proof], hrecord, ?_, ?_⟩
        · rw [List.length_append, List.length_singleton, List.length_cons]
          omega
        · intro p hp
          rcases List.mem_append.mp hp with hp | hp
          · exact hpairs p hp
          · rw [List.mem_singleton.mp hp]
            exact ⟨⟨i, hi, rfl⟩, _, _, houtcome⟩
      · have hcall : verifyInput D V i.context i.inputHandle i.inputProof s =
            .error .invalidInputHandle := by
          simp [verifyInput, checkProofCache, hcached, require, hchain, hverify, houtcome, hget, bind,
            Except.bind, Except.map]
        have hout : inputOutcome D V isSigner threshold i.context i.inputHandle i.inputProof =
            .error .invalidInputHandle := by
          simp [inputOutcome, require, hchain, houtcome, hget, bind, Except.bind]
        rw [hcall, hout]
        exact ⟨rfl, fun _ _ hok => by cases hok⟩

theorem remembers_empty (hpos : calls.length + 1 ≤ 2 ^ 256) :
    Remembers D V isSigner threshold calls past (emptyCache isSigner threshold) :=
  ⟨rfl, rfl, [], TransientSet.holds_empty hpos (by omega), Nat.zero_le _, by simp⟩

theorem remembers (hapart : ProofSlotsApart D isSigner calls) (hfits : calls.length + 1 ≤ 2 ^ 256)
    (past : List VerifyCall) (hs : past <:+ calls) : Remembers D V isSigner threshold calls past
      ((inputVerifier D V).exec (emptyCache isSigner threshold) past) := by
  induction past with
  | nil => exact remembers_empty hfits
  | cons i past ih =>
    have hpast := ih ((List.suffix_cons i past).trans hs)
    have hlength : past.length < calls.length := hs.length_le
    obtain ⟨-, hnext⟩ := verifyInput_of_remembers hapart hpast (hs.subset List.mem_cons_self) hlength
    obtain ⟨e, -, hstep⟩ | ⟨result, hok⟩ := step_cases i
      ((inputVerifier D V).exec (emptyCache isSigner threshold) past) (C := inputVerifier D V)
    · rw [exec_cons, hstep]
      obtain ⟨pairs, hholds, hpairsLength, hpairs⟩ := hpast.proofs
      exact ⟨hpast.isSigner_eq, hpast.threshold_eq, pairs, hholds, Nat.le_succ_of_le hpairsLength,
        hpairs⟩
    · rw [exec_cons]
      exact hnext result _ hok

/-- The handle is at its index in a list that as many distinct registered signers as the
threshold signed for the user, the contract and the chain. -/
def Signed (D : Deployment) (V : SignatureScheme) (isSigner : Address → Bool) (threshold : Nat)
    (context : ContextUserInputs) (handle : Bytes32) : Prop :=
  ∃ ctVerification : CiphertextVerification,
    ctVerification.userAddress = context.userAddress ∧
      ctVerification.contractAddress = context.contractAddress ∧
        ctVerification.contractChainId = D.chainid ∧
          ctVerification.ctHandles[(byteAt handle 21).toNat]? = some handle ∧
            ∃ signers : Finset Address, threshold ≤ signers.card ∧ ∀ a ∈ signers,
              isSigner a = true ∧ ∃ signature,
                V.recover (hashEIP712InputVerification D V ctVerification) signature = some a

theorem signed_of_inputOutcome {context : ContextUserInputs} {inputHandle result : Bytes32}
    {inputProof : Bytes}
    (h : inputOutcome D V isSigner threshold context inputHandle inputProof = .ok result) :
    result = inputHandle ∧ Signed D V isSigner threshold context inputHandle := by
  simp only [inputOutcome, bind_eq_ok, require_eq_ok, pure_eq_ok, exists_const] at h
  obtain ⟨-, listHandles, hproof, hget, rfl⟩ := h
  obtain ⟨numHandles, numSigners, -, -, -, hsignatures⟩ := proofOutcome_eq_ok.mp hproof
  obtain ⟨-, rfl, hverified⟩ := signaturesOutcome_eq_ok hsignatures
  have hbyte : (indexHandle inputHandle).toNat = (byteAt inputHandle 21).toNat := by
    rw [indexHandle_eq, BitVec.toNat_setWidth, byteAt]
    exact Nat.mod_eq_of_lt ((BitVec.isLt _).trans (by norm_num))
  rw [hbyte] at hget
  obtain ⟨signers, hcard, hsigners⟩ :=
    signersOutcome_true _ (List.Subset.refl _) [] List.nodup_nil (by simp) hverified
  refine ⟨rfl, signedData D context inputProof numHandles numSigners, rfl, rfl, rfl, hget, signers,
    hcard, fun a ha => ?_⟩
  obtain ⟨hsigner, signature, -, hrecover⟩ := hsigners a ha
  exact ⟨hsigner, signature, hrecover⟩

end Runs

/-- In a transaction every call answers as it would with an empty memory, and a handle is accepted
only if it is at its index in a list that enough registered signers signed for that user,
contract and chain. -/
theorem cache_transparent (D : Deployment) (V : SignatureScheme) (isSigner : Address → Bool)
    (threshold : Nat) (calls : List VerifyCall) (hapart : ProofSlotsApart D isSigner calls)
    (i : VerifyCall) (past : List VerifyCall) (hran : Ran calls i past) :
    let s := (inputVerifier D V).exec (emptyCache isSigner threshold) past
    (verifyInput D V i.context i.inputHandle i.inputProof s).map Prod.fst =
        (verifyInput D V i.context i.inputHandle i.inputProof
          (emptyCache isSigner threshold)).map Prod.fst ∧
      ∀ result s', verifyInput D V i.context i.inputHandle i.inputProof s = .ok (result, s') →
        result = i.inputHandle ∧ Signed D V isSigner threshold i.context i.inputHandle := by
  have hi : i ∈ calls := hran.subset List.mem_cons_self
  have hfits : calls.length + 1 ≤ 2 ^ 256 :=
    (hapart.large i hi).2.trans (proofSlot D i.proof).isLt
  have hlength : past.length < calls.length := hran.length_le
  have hrun : Remembers D V isSigner threshold calls past
      ((inputVerifier D V).exec (emptyCache isSigner threshold) past) :=
    remembers hapart hfits past hran.past_suffix
  have hstart : Remembers D V isSigner threshold calls past (emptyCache isSigner threshold) :=
    remembers_empty hfits
  obtain ⟨houtcome, -⟩ := verifyInput_of_remembers hapart hrun hi hlength
  obtain ⟨hempty, -⟩ := verifyInput_of_remembers hapart hstart hi hlength
  refine ⟨houtcome.trans hempty.symm, ?_⟩
  intro result s' hok
  rw [hok] at houtcome
  exact signed_of_inputOutcome houtcome.symm

/-- Signatures of a single coprocessor. -/
def oneSignature : SignatureScheme where
  hashTypedDataV4 := id
  recover _ signature := if signature = List.replicate 65 1 then some 0xabcdef else none

/-- The account 10 shows the contract 11 an input of type `uint8` in a list of one handle. -/
def sampleInput : VerifyCall where
  context := ⟨10, 11⟩
  inputHandle := 0x1f490200
  inputProof := [1, 1] ++ wordBytes 0x1f490200 ++ List.replicate 65 1

theorem sampleInput_signed : Signed sampleConfig.deployment oneSignature (fun a => a == 0xabcdef) 1
    sampleInput.context sampleInput.inputHandle := by
  have hslot : 2 ^ 160 ≤ (proofSlot sampleConfig.deployment sampleInput.proof).toNat := by
    decide +kernel
  have hapart : ProofSlotsApart sampleConfig.deployment (fun a => a == 0xabcdef)
      [sampleInput, sampleInput] := by
    have hall : ∀ i ∈ [sampleInput, sampleInput], i = sampleInput := by simp
    refine ⟨?_, ?_, ?_⟩
    · rintro p ⟨i, hi, rfl⟩ q ⟨j, hj, rfl⟩ -
      rw [hall i hi, hall j hj]
    · intro i hi
      rw [hall i hi]
      exact ⟨hslot, (by norm_num : 2 < 2 ^ 160).trans_le hslot⟩
    · intro a ha
      rw [eq_of_beq ha]
      decide
  have houtcome : inputOutcome sampleConfig.deployment oneSignature (fun a => a == 0xabcdef) 1
      sampleInput.context sampleInput.inputHandle sampleInput.inputProof =
        .ok sampleInput.inputHandle := by
    have hhandles : proofHandles sampleInput.inputProof 1 = [0x1f490200] := by decide +kernel
    have hsignatures : proofSignatures sampleInput.inputProof 1 1 = [List.replicate 65 1] := by
      decide +kernel
    have hproof : proofOutcome sampleConfig.deployment oneSignature (fun a => a == 0xabcdef) 1
        sampleInput.context 0 sampleInput.inputProof = .ok [0x1f490200] := by
      refine proofOutcome_eq_ok.mpr ⟨1, 1, rfl, rfl, by decide, ?_⟩
      have hlength : ¬ sampleInput.inputProof.length < 2 + 32 * 1 + 65 * 1 := by decide +kernel
      simp only [signaturesOutcome, hhandles, hsignatures, bind_eq_ok, require_eq_ok, pure_eq_ok,
        exists_const, List.forall_mem_singleton]
      exact ⟨hlength, by decide, by simp, by simp, true, by
        simp [signersOutcome, recoverSigner, oneSignature, require, bind, Except.bind, pure,
          Except.pure], rfl, trivial⟩
    have hindex : (indexHandle sampleInput.inputHandle).toNat = 0 := by decide +kernel
    have hchain : (recoveredChainId sampleInput.inputHandle).setWidth 256 =
        sampleConfig.deployment.chainid := by decide +kernel
    simp only [inputOutcome, hindex, hproof, bind_eq_ok, require_eq_ok, exists_const]
    exact ⟨hchain, _, rfl, rfl, rfl⟩
  -- the first call is verified, the second one is answered from the memory
  have hempty : Remembers sampleConfig.deployment oneSignature (fun a => a == 0xabcdef) 1
      [sampleInput, sampleInput] [] (emptyCache (fun a => a == 0xabcdef) 1) :=
    remembers_empty (by norm_num)
  obtain ⟨hverified, -⟩ := verifyInput_of_remembers hapart hempty (i := sampleInput) (by simp)
    (by simp)
  obtain ⟨hsame, hsigned⟩ := cache_transparent sampleConfig.deployment oneSignature
    (fun a => a == 0xabcdef) 1 [sampleInput, sampleInput] hapart sampleInput [sampleInput]
    (Ran.head _ _)
  obtain ⟨⟨result, s'⟩, hcall, -⟩ := map_eq_ok.mp (hsame.trans (hverified.trans houtcome))
  exact (hsigned result s' hcall).2

end Fhevm.Host
