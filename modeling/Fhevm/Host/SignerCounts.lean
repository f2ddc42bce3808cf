import Fhevm.Host.DecryptionProofs

/-!
# What a list of signatures proves

The verifier of inputs and that of public decryptions count distinct signers up to a threshold. They
revert on the first signature that is not of a registered signer, but they do not look at the
signatures behind the one that reaches the threshold.

## Main definitions

* `AllRegistered`, `signersOf` — the signers of a list of signatures.
* `Verdict` — the lists for which the answer is positive and those for which it is negative.
* `signers_counted` — what the verifiers answer, and that they leave the state as it was.
* `order_free_iff` — the lists whose order does not matter.
-/

namespace Fhevm.Host

open Foundation Contract Gateway

/-! ## Signers -/

section Signers

variable {V : SignatureScheme} {isSigner : Address → Bool} {threshold : Nat} {digest : Bytes32}
  {signature : Bytes} {signatures signatures' : List Bytes} {a : Address}

/-- Every signature is that of a registered signer. -/
def AllRegistered (V : SignatureScheme) (isSigner : Address → Bool) (digest : Bytes32)
    (signatures : List Bytes) : Prop :=
  ∀ signature ∈ signatures, ∃ a, V.recover digest signature = some a ∧ isSigner a = true

/-- The signers of a list, where each counts once. -/
def signersOf (V : SignatureScheme) (digest : Bytes32) (signatures : List Bytes) :
    Finset Address :=
  (signatures.filterMap (V.recover digest)).toFinset

theorem allRegistered_nil : AllRegistered V isSigner digest [] :=
  fun _ h => absurd h List.not_mem_nil

theorem allRegistered_cons (h : V.recover digest signature = some a) (ha : isSigner a = true) :
    AllRegistered V isSigner digest (signature :: signatures) ↔
      AllRegistered V isSigner digest signatures := by
  rw [AllRegistered, List.forall_mem_cons]
  exact and_iff_right ⟨a, h, ha⟩

theorem signersOf_nil : signersOf V digest [] = ∅ := rfl

theorem signersOf_cons (h : V.recover digest signature = some a) :
    signersOf V digest (signature :: signatures) = insert a (signersOf V digest signatures) := by
  rw [signersOf, List.filterMap_cons_some h, List.toFinset_cons]
  rfl

theorem mem_signersOf : a ∈ signersOf V digest signatures ↔
    ∃ signature ∈ signatures, V.recover digest signature = some a :=
  List.mem_toFinset.trans List.mem_filterMap

theorem AllRegistered.perm (hperm : signatures.Perm signatures')
    (h : AllRegistered V isSigner digest signatures) :
    AllRegistered V isSigner digest signatures' :=
  fun signature hmem => h signature (hperm.mem_iff.mpr hmem)

theorem signersOf_perm (hperm : signatures.Perm signatures') :
    signersOf V digest signatures = signersOf V digest signatures' :=
  List.toFinset_eq_of_perm _ _ (hperm.filterMap _)

theorem signersOf_mono (h : signatures ⊆ signatures') :
    signersOf V digest signatures ⊆ signersOf V digest signatures' := by
  intro a ha
  obtain ⟨signature, hmem, hrecover⟩ := mem_signersOf.mp ha
  exact mem_signersOf.mpr ⟨signature, h hmem, hrecover⟩

/-! ## The loop -/

theorem recoverSigner_ok_iff : recoverSigner V digest signature = .ok a ↔
    V.recover digest signature = some a := by
  unfold recoverSigner
  cases V.recover digest signature <;> simp

attribute [local instance] lawfulBEq_address

/-- The signers that the loop has found, with the next one. -/
def withSigner (recoveredSigners : List Address) (a : Address) : List Address :=
  if a ∈ recoveredSigners then recoveredSigners else recoveredSigners ++ [a]

theorem toFinset_withSigner (recoveredSigners : List Address) (a : Address) :
    (withSigner recoveredSigners a).toFinset = insert a recoveredSigners.toFinset := by
  unfold withSigner
  split_ifs with hmem
  · rw [Finset.insert_eq_of_mem (List.mem_toFinset.mpr hmem)]
  · rw [List.toFinset_append, Finset.union_comm]
    rfl

theorem nodup_withSigner {recoveredSigners : List Address} (h : recoveredSigners.Nodup)
    (a : Address) : (withSigner recoveredSigners a).Nodup := by
  unfold withSigner
  split_ifs with hmem
  · exact h
  · exact List.concat_eq_append ▸ h.concat hmem

theorem length_withSigner {recoveredSigners : List Address} (h : recoveredSigners.Nodup)
    (a : Address) :
    (withSigner recoveredSigners a).length = (insert a recoveredSigners.toFinset).card := by
  rw [← toFinset_withSigner, List.toFinset_card_of_nodup (nodup_withSigner h a)]

theorem signersOutcome_cons (h : V.recover digest signature = some a) (ha : isSigner a = true)
    (recoveredSigners : List Address) :
    signersOutcome V isSigner threshold digest (signature :: signatures) recoveredSigners =
      if threshold ≤ (withSigner recoveredSigners a).length then .ok true
      else signersOutcome V isSigner threshold digest signatures
        (withSigner recoveredSigners a) := by
  rw [signersOutcome, recoverSigner, h]
  simp only [Except.bind, bind, require, ha, if_true]
  rfl

/-- A signature that is not of a registered signer is met with a revert. -/
theorem signersOutcome_cons_ne_ok
    (h : ¬ ∃ a, V.recover digest signature = some a ∧ isSigner a = true)
    (recoveredSigners : List Address) (b : Bool) :
    signersOutcome V isSigner threshold digest (signature :: signatures) recoveredSigners ≠
      .ok b := by
  simp only [signersOutcome, ne_eq, bind_eq_ok, require_eq_ok, exists_const, not_exists, not_and,
    recoverSigner_ok_iff]
  exact fun a hrecover hsigner => absurd ⟨a, hrecover, hsigner⟩ h

/-- The answer is positive where a front part of the list reaches the threshold. The induction is on
the list, where the signers found are those of the part before. -/
theorem signersOutcome_eq_true_iff {recoveredSigners : List Address}
    (hnodup : recoveredSigners.Nodup) :
    signersOutcome V isSigner threshold digest signatures recoveredSigners = .ok true ↔
      ∃ front, front <+: signatures ∧ front ≠ [] ∧ AllRegistered V isSigner digest front ∧
        threshold ≤ (recoveredSigners.toFinset ∪ signersOf V digest front).card := by
  induction signatures generalizing recoveredSigners with
  | nil =>
    refine iff_of_false (fun h => by cases h) ?_
    rintro ⟨front, hfront, hne, -⟩
    exact hne (List.prefix_nil.mp hfront)
  | cons signature signatures ih =>
    by_cases hregistered : ∃ a, V.recover digest signature = some a ∧ isSigner a = true
    · obtain ⟨a, hrecover, ha⟩ := hregistered
      have hunion : ∀ front, recoveredSigners.toFinset ∪
          signersOf V digest (signature :: front) =
            (withSigner recoveredSigners a).toFinset ∪ signersOf V digest front := by
        intro front
        rw [signersOf_cons hrecover, toFinset_withSigner, Finset.union_insert, Finset.insert_union]
      rw [signersOutcome_cons hrecover ha]
      split_ifs with hquorum
      · refine iff_of_true rfl ⟨[signature], List.prefix_append [signature] _, by simp,
          (allRegistered_cons hrecover ha).mpr allRegistered_nil, ?_⟩
        rwa [hunion, signersOf_nil, Finset.union_empty, toFinset_withSigner,
          ← length_withSigner hnodup]
      · rw [ih (nodup_withSigner hnodup a)]
        constructor
        · rintro ⟨front, hfront, -, hall, hcard⟩
          refine ⟨signature :: front, (List.prefix_cons_inj signature).mpr hfront, by simp,
            (allRegistered_cons hrecover ha).mpr hall, ?_⟩
          rwa [hunion]
        · rintro ⟨front, hfront, hne, hall, hcard⟩
          obtain rfl | ⟨rest, rfl, hrest⟩ := List.prefix_cons_iff.mp hfront
          · exact absurd rfl hne
          rw [hunion] at hcard
          refine ⟨rest, hrest, ?_, (allRegistered_cons hrecover ha).mp hall, hcard⟩
          -- the signer alone does not reach the threshold
          rintro rfl
          rw [signersOf_nil, Finset.union_empty, toFinset_withSigner,
            ← length_withSigner hnodup] at hcard
          exact hquorum hcard
    · refine iff_of_false (signersOutcome_cons_ne_ok hregistered _ _) ?_
      rintro ⟨front, hfront, hne, hall, -⟩
      obtain rfl | ⟨front, rfl, -⟩ := List.prefix_cons_iff.mp hfront
      · exact hne rfl
      · exact hregistered (hall signature List.mem_cons_self)

/-- The answer is negative where the whole list does not reach the threshold. -/
theorem signersOutcome_eq_false_iff {recoveredSigners : List Address}
    (hnodup : recoveredSigners.Nodup) :
    signersOutcome V isSigner threshold digest signatures recoveredSigners = .ok false ↔
      AllRegistered V isSigner digest signatures ∧ (signatures = [] ∨
        (recoveredSigners.toFinset ∪ signersOf V digest signatures).card < threshold) := by
  induction signatures generalizing recoveredSigners with
  | nil => exact iff_of_true rfl ⟨allRegistered_nil, .inl rfl⟩
  | cons signature signatures ih =>
    by_cases hregistered : ∃ a, V.recover digest signature = some a ∧ isSigner a = true
    · obtain ⟨a, hrecover, ha⟩ := hregistered
      have hunion : recoveredSigners.toFinset ∪ signersOf V digest (signature :: signatures) =
          (withSigner recoveredSigners a).toFinset ∪ signersOf V digest signatures := by
        rw [signersOf_cons hrecover, toFinset_withSigner, Finset.union_insert, Finset.insert_union]
      have hlength : (withSigner recoveredSigners a).length =
          (withSigner recoveredSigners a).toFinset.card :=
        (List.toFinset_card_of_nodup (nodup_withSigner hnodup a)).symm
      rw [signersOutcome_cons hrecover ha, allRegistered_cons hrecover ha, hunion]
      split_ifs with hquorum
      · refine iff_of_false (fun h => by cases h) ?_
        rintro ⟨-, hnil | hcard⟩
        · cases hnil
        · have hle : (withSigner recoveredSigners a).toFinset.card ≤
              ((withSigner recoveredSigners a).toFinset ∪ signersOf V digest signatures).card :=
            Finset.card_le_card Finset.subset_union_left
          omega
      · rw [ih (nodup_withSigner hnodup a)]
        apply and_congr_right
        intro _
        constructor
        · rintro (rfl | hcard)
          · right
            rw [signersOf_nil, Finset.union_empty]
            omega
          · exact .inr hcard
        · rintro (hnil | hcard)
          · cases hnil
          · exact .inr hcard
    · refine iff_of_false (signersOutcome_cons_ne_ok hregistered _ _) ?_
      exact fun h => hregistered (h.1 signature List.mem_cons_self)

end Signers

/-! ## Verdicts -/

section Verdicts

variable {V : SignatureScheme} {isSigner : Address → Bool} {threshold : Nat} {digest : Bytes32}
  {signatures signatures' : List Bytes} {b : Bool}

/-- The lists for which the answer is positive, and those for which it is negative; on the others
the call reverts. -/
def Verdict (V : SignatureScheme) (isSigner : Address → Bool) (threshold : Nat) (digest : Bytes32)
    (signatures : List Bytes) : Bool → Prop
  | true => ∃ front, front <+: signatures ∧ front ≠ [] ∧ AllRegistered V isSigner digest front ∧
      threshold ≤ (signersOf V digest front).card
  | false => signatures ≠ [] ∧ threshold ≤ signatures.length ∧
      AllRegistered V isSigner digest signatures ∧ (signersOf V digest signatures).card < threshold

theorem card_signersOf_le : (signersOf V digest signatures).card ≤ signatures.length :=
  (List.toFinset_card_le _).trans (List.length_filterMap_le _ _)

/-- The loop and the checks before it. -/
theorem verdict_iff : Verdict V isSigner threshold digest signatures b ↔
    signatures ≠ [] ∧ threshold ≤ signatures.length ∧
      signersOutcome V isSigner threshold digest signatures [] = .ok b := by
  cases b with
  | true =>
    rw [signersOutcome_eq_true_iff List.nodup_nil]
    simp only [List.toFinset_nil, Finset.empty_union]
    constructor
    · rintro ⟨front, hfront, hne, hall, hcard⟩
      have hlength := hfront.length_le
      have hle := @card_signersOf_le V digest front
      refine ⟨?_, by omega, front, hfront, hne, hall, hcard⟩
      rintro rfl
      exact hne (List.prefix_nil.mp hfront)
    · exact fun h => h.2.2
  | false =>
    rw [signersOutcome_eq_false_iff List.nodup_nil]
    simp only [List.toFinset_nil, Finset.empty_union]
    constructor
    · rintro ⟨hne, henough, hall, hcard⟩
      exact ⟨hne, henough, hall, .inr hcard⟩
    · rintro ⟨hne, henough, hall, hnil | hcard⟩
      · exact absurd hnil hne
      · exact ⟨hne, henough, hall, hcard⟩

/-- A list that starts with a signature that is not of a registered signer makes the call revert. -/
theorem not_verdict_cons {signature : Bytes}
    (h : ¬ ∃ a, V.recover digest signature = some a ∧ isSigner a = true) :
    ¬ Verdict V isSigner threshold digest (signature :: signatures) b := by
  intro hverdict
  cases b with
  | true =>
    obtain ⟨front, hfront, hne, hall, -⟩ := hverdict
    obtain rfl | ⟨rest, rfl, -⟩ := List.prefix_cons_iff.mp hfront
    · exact hne rfl
    · exact h (hall signature List.mem_cons_self)
  | false => exact h (hverdict.2.2.1 signature List.mem_cons_self)

/-! ### Orders of a list -/

/-- The registered signers of a list that may have other signatures, too. -/
def registeredSigners (V : SignatureScheme) (isSigner : Address → Bool) (digest : Bytes32)
    (signatures : List Bytes) : Finset Address :=
  (signersOf V digest signatures).filter (isSigner · = true)

theorem registeredSigners_perm (hperm : signatures.Perm signatures') :
    registeredSigners V isSigner digest signatures =
      registeredSigners V isSigner digest signatures' := by
  rw [registeredSigners, signersOf_perm hperm, registeredSigners]

theorem AllRegistered.subset_registeredSigners (h : AllRegistered V isSigner digest signatures)
    (hsub : signatures ⊆ signatures') :
    signersOf V digest signatures ⊆ registeredSigners V isSigner digest signatures' := by
  intro a ha
  refine Finset.mem_filter.mpr ⟨signersOf_mono hsub ha, ?_⟩
  obtain ⟨signature, hmem, hrecover⟩ := mem_signersOf.mp ha
  obtain ⟨a', hrecover', hsigner⟩ := h signature hmem
  rw [hrecover] at hrecover'
  cases hrecover'
  exact hsigner

/-- The signature of a registered signer, as a test. -/
def registered (V : SignatureScheme) (isSigner : Address → Bool) (digest : Bytes32)
    (signature : Bytes) : Bool :=
  (V.recover digest signature).any isSigner

theorem registered_iff {signature : Bytes} : registered V isSigner digest signature = true ↔
    ∃ a, V.recover digest signature = some a ∧ isSigner a = true := by
  rw [registered]
  cases V.recover digest signature <;> simp

theorem allRegistered_filter (V : SignatureScheme) (isSigner : Address → Bool) (digest : Bytes32)
    (signatures : List Bytes) :
    AllRegistered V isSigner digest (signatures.filter (registered V isSigner digest)) :=
  fun _ hmem => registered_iff.mp (List.mem_filter.mp hmem).2

theorem registeredSigners_subset_filter : registeredSigners V isSigner digest signatures ⊆
    signersOf V digest (signatures.filter (registered V isSigner digest)) := by
  intro a ha
  obtain ⟨ha, hsigner⟩ := Finset.mem_filter.mp ha
  obtain ⟨signature, hmem, hrecover⟩ := mem_signersOf.mp ha
  exact mem_signersOf.mpr ⟨signature,
    List.mem_filter.mpr ⟨hmem, registered_iff.mpr ⟨a, hrecover, hsigner⟩⟩, hrecover⟩

/-- With few registered signers, or with no others, the order does not matter. -/
theorem Verdict.perm (hperm : signatures.Perm signatures')
    (h : AllRegistered V isSigner digest signatures ∨
      (registeredSigners V isSigner digest signatures).card < max 1 threshold)
    (hverdict : Verdict V isSigner threshold digest signatures b) :
    Verdict V isSigner threshold digest signatures' b := by
  cases b with
  | false =>
    obtain ⟨hne, henough, hall, hcard⟩ := hverdict
    refine ⟨?_, hperm.length_eq ▸ henough, hall.perm hperm, signersOf_perm hperm ▸ hcard⟩
    rintro rfl
    exact hne hperm.eq_nil
  | true =>
    obtain ⟨front, hfront, hne, hall, hcard⟩ := hverdict
    obtain hregistered | hfew := h
    · refine ⟨signatures', List.prefix_rfl, ?_, hregistered.perm hperm, ?_⟩
      · rintro rfl
        exact hne (List.prefix_nil.mp (hperm.eq_nil ▸ hfront))
      · rw [← signersOf_perm hperm]
        exact hcard.trans (Finset.card_le_card (signersOf_mono hfront.subset))
    · -- the front part alone has too many signers
      have hle := Finset.card_le_card (hall.subset_registeredSigners hfront.subset)
      have hpos : 0 < (signersOf V digest front).card := by
        obtain ⟨signature, hmem⟩ := List.exists_mem_of_ne_nil front hne
        obtain ⟨a, hrecover, -⟩ := hall signature hmem
        exact Finset.card_pos.mpr ⟨a, mem_signersOf.mpr ⟨signature, hmem, hrecover⟩⟩
      omega

/-- The order of a list matters exactly if it has a signature that is not of a registered signer,
and the registered ones reach the threshold without it. -/
theorem verdicts_alike_iff :
    (∀ signatures', signatures'.Perm signatures → ∀ b,
      (Verdict V isSigner threshold digest signatures' b ↔
        Verdict V isSigner threshold digest signatures b)) ↔
    AllRegistered V isSigner digest signatures ∨
      (registeredSigners V isSigner digest signatures).card < max 1 threshold := by
  constructor
  · intro halike
    by_contra! hmany
    obtain ⟨hother, hcard⟩ := hmany
    have hsplit := List.filter_append_perm (registered V isSigner digest) signatures
    generalize hgood : signatures.filter (registered V isSigner digest) = good at hsplit
    generalize hbad : signatures.filter (fun x => !registered V isSigner digest x) = bad at hsplit
    have hle : (registeredSigners V isSigner digest signatures).card ≤
        (signersOf V digest good).card := by
      rw [← hgood]
      exact Finset.card_le_card registeredSigners_subset_filter
    -- with the registered signers first, the answer is positive
    have haccepted : Verdict V isSigner threshold digest (good ++ bad) true := by
      refine ⟨good, List.prefix_append _ _, ?_, ?_, by omega⟩
      · rintro rfl
        rw [signersOf_nil, Finset.card_empty] at hle
        omega
      · rw [← hgood]
        exact allRegistered_filter V isSigner digest signatures
    -- with another signature first, the call reverts
    obtain ⟨signature, rest, rfl⟩ : ∃ signature rest, bad = signature :: rest := by
      simp only [AllRegistered, not_forall] at hother
      obtain ⟨signature, hmem, hother⟩ := hother
      apply List.exists_cons_of_ne_nil
      rw [← hbad]
      refine List.ne_nil_of_mem (List.mem_filter.mpr ⟨hmem, ?_⟩)
      rw [Bool.not_eq_true', ← Bool.not_eq_true, registered_iff]
      exact hother
    have hfirst : ¬ ∃ a, V.recover digest signature = some a ∧ isSigner a = true := by
      have hmem : signature ∈ signatures.filter (fun x => !registered V isSigner digest x) :=
        hbad ▸ List.mem_cons_self
      rw [← registered_iff]
      simpa using (List.mem_filter.mp hmem).2
    have hreverted : ¬ Verdict V isSigner threshold digest (signature :: rest ++ good) true :=
      not_verdict_cons hfirst
    have hback := (@List.perm_append_comm _ (signature :: rest) good).trans hsplit
    exact hreverted ((halike _ hback true).mpr ((halike _ hsplit true).mp haccepted))
  · intro h signatures' hperm b
    refine ⟨Verdict.perm hperm ?_, Verdict.perm hperm.symm h⟩
    rw [registeredSigners_perm hperm]
    exact h.imp_left (AllRegistered.perm hperm.symm)

/-! ### Answers -/

/-- The answer of a call, or none where it reverts. -/
def answer {ε σ : Type} (result : Except ε (Bool × σ)) : Option Bool :=
  result.toOption.map Prod.fst

theorem answer_eq_some_iff {ε σ : Type} {result : Except ε (Bool × σ)} {b : Bool} :
    answer result = some b ↔ ∃ s, result = .ok (b, s) := by
  rcases result with e | ⟨b', s⟩ <;> simp [answer, Except.toOption]

end Verdicts

/-! ## The verifiers -/

section Verifiers

variable {V : SignatureScheme} {D : GatewayDeployment} {s s' : InputVerifierState}
  {k k' : KMSVerifier.Storage} {digest : Bytes32} {signatures signatures' : List Bytes} {b : Bool}

theorem inputVerifier_eq_ok_iff (hs : SlotsClear s) :
    verifySignaturesDigest V digest signatures s = .ok (b, s') ↔
      Verdict V s.isSigner s.threshold digest signatures b ∧ s' = s := by
  simp only [verifySignaturesDigest, bind_eq_ok, require_eq_ok, exists_const, not_lt,
    countSigners_nil hs, verdict_iff]
  constructor
  · rintro ⟨hne, henough, hmap⟩
    obtain ⟨b', houtcome, heq⟩ := map_eq_ok.mp hmap
    cases heq
    exact ⟨⟨hne, henough, houtcome⟩, rfl⟩
  · rintro ⟨⟨hne, henough, houtcome⟩, rfl⟩
    exact ⟨hne, henough, map_eq_ok.mpr ⟨b, houtcome, rfl⟩⟩

theorem kmsVerifier_eq_ok_iff (hk : SlotsClear k.marks) :
    k.verifySignaturesDigest D digest signatures = .ok (b, k') ↔
      Verdict (k.scheme D) k.isSigner k.threshold digest signatures b ∧ k' = k := by
  rw [KMSVerifier.verifySignaturesDigest_eq_ok hk, verdict_iff]
  tauto

theorem answer_inputVerifier_iff (hs : SlotsClear s) :
    answer (verifySignaturesDigest V digest signatures s) = some b ↔
      Verdict V s.isSigner s.threshold digest signatures b := by
  simp [answer_eq_some_iff, inputVerifier_eq_ok_iff hs]

theorem answer_kmsVerifier_iff (hk : SlotsClear k.marks) :
    answer (k.verifySignaturesDigest D digest signatures) = some b ↔
      Verdict (k.scheme D) k.isSigner k.threshold digest signatures b := by
  simp [answer_eq_some_iff, kmsVerifier_eq_ok_iff hk]

/-- The answer is positive if a front part of the list has as many distinct registered signers as
the threshold, and no other signature. It is negative if the list is as long as the threshold and
has registered signers only, but too few distinct ones. Otherwise the call reverts. An answer
leaves the state as it was. -/
theorem signers_counted (V : SignatureScheme) (D : GatewayDeployment) (s : InputVerifierState)
    (k : KMSVerifier.Storage) (hs : SlotsClear s) (hk : SlotsClear k.marks) (digest : Bytes32)
    (signatures : List Bytes) :
    ((∀ b s', verifySignaturesDigest V digest signatures s = .ok (b, s') ↔
        Verdict V s.isSigner s.threshold digest signatures b ∧ s' = s) ∧
      ((∃ e, verifySignaturesDigest V digest signatures s = .error e) ↔
        ∀ b, ¬ Verdict V s.isSigner s.threshold digest signatures b)) ∧
    (∀ b k', k.verifySignaturesDigest D digest signatures = .ok (b, k') ↔
        Verdict (k.scheme D) k.isSigner k.threshold digest signatures b ∧ k' = k) ∧
      ((∃ e, k.verifySignaturesDigest D digest signatures = .error e) ↔
        ∀ b, ¬ Verdict (k.scheme D) k.isSigner k.threshold digest signatures b) := by
  refine ⟨⟨fun _ _ => inputVerifier_eq_ok_iff hs, ?_⟩,
    fun _ _ => kmsVerifier_eq_ok_iff hk, ?_⟩
  · simp [exists_error_iff, inputVerifier_eq_ok_iff hs]
  · simp [exists_error_iff, kmsVerifier_eq_ok_iff hk]

/-! ### Two signers -/

/-- The last byte of a signature is the address of its signer. -/
def lastByte (signature : Bytes) : Option Address :=
  if signature.length = 65 then some (BitVec.ofNat 160 (signature.getLastD 0).toNat) else none

def lastByteScheme : SignatureScheme where
  hashTypedDataV4 structHash := structHash
  recover _ := lastByte

def lastByteDeployment : GatewayDeployment :=
  { sampleDeployment with recover := fun _ => lastByte }

def signatureOf (signer : UInt8) : Bytes := List.replicate 64 0 ++ [signer]

/-- The signers are 7 and 9. -/
def twoSigners (threshold : Nat) : InputVerifierState :=
  emptyCache (fun a => a == 7 || a == 9) threshold

def twoKmsSigners (threshold : Nat) : KMSVerifier.Storage :=
  KMSVerifier.storageAfter lastByteDeployment 5 [.defineNewContext true [7, 9] threshold]

theorem slotsClear_twoSigners (threshold : Nat) : SlotsClear (twoSigners threshold) :=
  fun _ _ => rfl

theorem slotsClear_twoKmsSigners (threshold : Nat) :
    SlotsClear (twoKmsSigners threshold).marks :=
  KMSVerifier.deployed_storageAfter.slotsClear

theorem lastByte_signatureOf (signer : UInt8) :
    lastByte (signatureOf signer) = some (BitVec.ofNat 160 signer.toNat) := by
  simp [lastByte, signatureOf]

/-- Both signers, one of them twice. -/
theorem repeated_counted :
    verifySignaturesDigest lastByteScheme 0 [signatureOf 7, signatureOf 7, signatureOf 9]
        (twoSigners 2) = .ok (true, twoSigners 2) ∧
      (twoKmsSigners 2).verifySignaturesDigest lastByteDeployment 0
        [signatureOf 7, signatureOf 7] = .ok (false, twoKmsSigners 2) := by
  have hsigner : (twoKmsSigners 2).isSigner 7 = true := by decide +kernel
  have hthreshold : (twoKmsSigners 2).threshold = 2 := by decide +kernel
  constructor
  · refine ((signers_counted lastByteScheme lastByteDeployment (twoSigners 2) (twoKmsSigners 2)
      (slotsClear_twoSigners 2) (slotsClear_twoKmsSigners 2) 0 _).1.1 true _).mpr ⟨?_, rfl⟩
    refine ⟨_, List.prefix_rfl, List.cons_ne_nil _ _, ?_, by decide +kernel⟩
    simp [AllRegistered, lastByteScheme, lastByte_signatureOf, twoSigners, emptyCache]
  · refine ((signers_counted lastByteScheme lastByteDeployment (twoSigners 2) (twoKmsSigners 2)
      (slotsClear_twoSigners 2) (slotsClear_twoKmsSigners 2) 0 _).2.1 false _).mpr ⟨?_, rfl⟩
    refine ⟨List.cons_ne_nil _ _, by rw [hthreshold]; rfl, ?_, ?_⟩
    · intro signature hmem
      obtain rfl : signature = signatureOf 7 := by simpa using hmem
      exact ⟨7, lastByte_signatureOf 7, hsigner⟩
    · rw [hthreshold]
      decide +kernel

/-- One signature of a registered signer, where two are needed, gets no negative answer. -/
theorem single_reverts :
    (AllRegistered lastByteScheme (twoSigners 2).isSigner 0 [signatureOf 7] ∧
      (signersOf lastByteScheme 0 [signatureOf 7]).card < (twoSigners 2).threshold ∧
      answer (verifySignaturesDigest lastByteScheme 0 [signatureOf 7] (twoSigners 2)) = none) ∧
    AllRegistered lastByteScheme (twoKmsSigners 2).isSigner 0 [signatureOf 7] ∧
      (signersOf lastByteScheme 0 [signatureOf 7]).card < (twoKmsSigners 2).threshold ∧
      answer ((twoKmsSigners 2).verifySignaturesDigest lastByteDeployment 0
        [signatureOf 7]) = none := by
  have hsigner : (twoKmsSigners 2).isSigner 7 = true := by decide +kernel
  have hall : ∀ isSigner : Address → Bool, isSigner 7 = true →
      AllRegistered lastByteScheme isSigner 0 [signatureOf 7] := by
    intro isSigner h signature hmem
    obtain rfl := List.mem_singleton.mp hmem
    exact ⟨7, lastByte_signatureOf 7, h⟩
  exact ⟨⟨hall _ rfl, by decide +kernel, by decide +kernel⟩, hall _ hsigner, by decide +kernel,
    by decide +kernel⟩

end Verifiers

/-! ## The order of the signatures -/

section Order

variable {V : SignatureScheme} {D : GatewayDeployment} {s : InputVerifierState}
  {k : KMSVerifier.Storage} {digest : Bytes32} {signatures signatures' : List Bytes}

theorem answers_eq_iff {x y : Option Bool} {P Q : Bool → Prop} (hx : ∀ b, x = some b ↔ P b)
    (hy : ∀ b, y = some b ↔ Q b) : x = y ↔ ∀ b, (P b ↔ Q b) := by
  simp only [← hx, ← hy]
  exact ⟨fun h b => by rw [h], fun h => Option.ext h⟩

/-- The orders of a list get the same answer or revert alike, exactly if all signatures are of
registered signers, or too few distinct registered signers are among them. -/
theorem order_free_iff (V : SignatureScheme) (D : GatewayDeployment) (s : InputVerifierState)
    (k : KMSVerifier.Storage) (hs : SlotsClear s) (hk : SlotsClear k.marks) (digest : Bytes32)
    (signatures : List Bytes) :
    ((∀ signatures', signatures'.Perm signatures →
        answer (k.verifySignaturesDigest D digest signatures') =
          answer (k.verifySignaturesDigest D digest signatures)) ↔
      AllRegistered (k.scheme D) k.isSigner digest signatures ∨
        (registeredSigners (k.scheme D) k.isSigner digest signatures).card < max 1 k.threshold) ∧
    ((∀ signatures', signatures'.Perm signatures →
        answer (verifySignaturesDigest V digest signatures' s) =
          answer (verifySignaturesDigest V digest signatures s)) ↔
      AllRegistered V s.isSigner digest signatures ∨
        (registeredSigners V s.isSigner digest signatures).card < max 1 s.threshold) := by
  constructor
  · rw [← verdicts_alike_iff]
    refine forall₂_congr fun _ _ => answers_eq_iff ?_ ?_ <;>
      exact fun _ => answer_kmsVerifier_iff hk
  · rw [← verdicts_alike_iff]
    refine forall₂_congr fun _ _ => answers_eq_iff ?_ ?_ <;>
      exact fun _ => answer_inputVerifier_iff hs

/-- Two signers are enough, in both orders. -/
theorem signatures_swapped :
    answer (verifySignaturesDigest lastByteScheme 0 [signatureOf 9, signatureOf 7]
        (twoSigners 2)) =
      answer (verifySignaturesDigest lastByteScheme 0 [signatureOf 7, signatureOf 9]
        (twoSigners 2)) := by
  refine (order_free_iff lastByteScheme lastByteDeployment (twoSigners 2) (twoKmsSigners 2)
    (slotsClear_twoSigners 2) (slotsClear_twoKmsSigners 2) 0 _).2.mpr (.inl ?_) _
      (List.Perm.swap _ _ [])
  simp [AllRegistered, lastByteScheme, lastByte_signatureOf, twoSigners, emptyCache]

/-- A signature of another signer is not looked at behind enough signatures, but before them. -/
theorem stranger_last_or_first :
    [signatureOf 7, signatureOf 8].Perm [signatureOf 8, signatureOf 7] ∧
    (answer ((twoKmsSigners 1).verifySignaturesDigest lastByteDeployment 0
        [signatureOf 7, signatureOf 8]) = some true ∧
      answer ((twoKmsSigners 1).verifySignaturesDigest lastByteDeployment 0
        [signatureOf 8, signatureOf 7]) = none) ∧
    answer (verifySignaturesDigest lastByteScheme 0 [signatureOf 7, signatureOf 8]
        (twoSigners 1)) = some true ∧
      answer (verifySignaturesDigest lastByteScheme 0 [signatureOf 8, signatureOf 7]
        (twoSigners 1)) = none :=
  ⟨List.Perm.swap _ _ [], ⟨by decide +kernel, by decide +kernel⟩, by decide +kernel,
    by decide +kernel⟩

end Order

end Fhevm.Host
