import Fhevm.Gateway.InputVerification
import Fhevm.Host.InputProofs
import Fhevm.ZkProof.Verifier

/-!
# Packed inputs

The handles of a list of inputs, the signatures of the coprocessors and the extra data are packed
into one byte string. The host chain unpacks it, and reads off each handle what the worker has
written into it.

## Main definitions

* `InputHandle` — what is written into the last bytes of a handle.
* `inputProofOf` — the packed byte string.
* `SignersApart` — no proof is remembered where a mark of a signer is set.
* `proofOutcome_packed`, `verifyInput_of_outcome` — a packed list is accepted, remembered or not.
-/

namespace Fhevm.Host

open Foundation Contract Gateway ZkProof

/-! ## Handles -/

/-- The bits of a word behind some of its bytes. -/
theorem toNat_extractLsb'_of_bytes {word : Bytes32} (front mid back : Bytes)
    (h : wordBytes word = front ++ (mid ++ back)) :
    (word.extractLsb' (8 * back.length) (8 * mid.length)).toNat = BigEndian.decode mid := by
  have hword : word.toNat = BigEndian.decode (front ++ (mid ++ back)) := by
    rw [← h, decode_wordBytes]
  have hpow : ∀ m : Nat, 2 ^ (8 * m) = 256 ^ m := fun m => by rw [pow_mul]; norm_num
  rw [BitVec.extractLsb'_toNat, Nat.shiftRight_eq_div_pow, hpow, hpow, hword,
    ← List.append_assoc, BigEndian.decode_append, Nat.mul_comm,
    Nat.mul_add_div (by positivity), Nat.div_eq_of_lt (BigEndian.decode_lt back), Nat.add_zero,
    BigEndian.decode_append, Nat.mul_add_mod_self_right,
    Nat.mod_eq_of_lt (BigEndian.decode_lt mid)]

/-- The index, the chain and the type of an input, as the contracts read them off its handle. -/
structure InputHandle (handle : Bytes32) (index chainId : Nat) (type : FheType) : Prop where
  index_eq : (indexHandle handle).toNat = index
  chain : (recoveredChainId handle).toNat = chainId
  type_eq : typeOf handle = some type
  version : handleVersion handle = HANDLE_VERSION

/-- The metadata that the worker writes is what the contracts read. -/
theorem inputHandle_of_bytes {handle : Bytes32} {hash : Bytes} {index chainId : Nat}
    {type : FheType} (hindex : index ≤ 254) (hchain : chainId < 2 ^ 64)
    (h : wordBytes handle = hash ++ (UInt8.ofNat index :: BigEndian.encode 8 chainId ++
      [UInt8.ofNat type.toNat, 0])) : InputHandle handle index chainId type := by
  have htype := type.toNat_lt
  have hbyte : ∀ {n : Nat}, n < 256 → BigEndian.decode [UInt8.ofNat n] = n := by
    intro n hn
    rw [← List.nil_append [UInt8.ofNat n], BigEndian.decode_concat, BigEndian.decode_nil,
      UInt8.toNat_ofNat']
    omega
  have hindexBits := toNat_extractLsb'_of_bytes hash [UInt8.ofNat index]
    (BigEndian.encode 8 chainId ++ [UInt8.ofNat type.toNat, 0]) (h.trans (by simp))
  have hchainBits := toNat_extractLsb'_of_bytes (hash ++ [UInt8.ofNat index])
    (BigEndian.encode 8 chainId) [UInt8.ofNat type.toNat, 0] (h.trans (by simp))
  have htypeBits := toNat_extractLsb'_of_bytes
    (hash ++ [UInt8.ofNat index] ++ BigEndian.encode 8 chainId) [UInt8.ofNat type.toNat] [0]
      (h.trans (by simp))
  have hversionBits := toNat_extractLsb'_of_bytes
    (hash ++ [UInt8.ofNat index] ++ BigEndian.encode 8 chainId ++ [UInt8.ofNat type.toNat]) [0] []
      (h.trans (by simp))
  rw [BigEndian.length_encode] at hchainBits
  simp only [List.length_append, BigEndian.length_encode, List.length_cons, List.length_nil]
    at hindexBits htypeBits hversionBits
  rw [hbyte (by omega)] at hindexBits htypeBits
  rw [BigEndian.decode_encode, Nat.mod_eq_of_lt (hchain.trans_eq (by norm_num))] at hchainBits
  refine ⟨?_, ?_, ?_, ?_⟩
  · rw [indexHandle_eq, BitVec.toNat_setWidth, hindexBits]
    omega
  · rw [recoveredChainId_eq]
    exact hchainBits
  · rw [typeOf, byteAt, htypeBits]
    exact type.ofNat?_toNat
  · have hlow : handleVersion handle = handle.extractLsb' 0 8 := by
      rw [handleVersion, BitVec.setWidth_eq_extractLsb' (by norm_num)]
    rw [hlow]
    apply BitVec.eq_of_toNat_eq
    rw [hversionBits]
    rfl

/-! ## The packed byte string -/

section Packed

variable {handles : List Bytes32} {signatures : List Bytes} {extraData : Bytes}

/-- The numbers of handles and of signatures, the handles, the signatures and the extra data. -/
def inputProofOf (handles : List Bytes32) (signatures : List Bytes) (extraData : Bytes) : Bytes :=
  UInt8.ofNat handles.length :: UInt8.ofNat signatures.length ::
    (handles.flatMap wordBytes ++ (signatures.flatten ++ extraData))

theorem drop_inputProofOf (n : Nat) : (inputProofOf handles signatures extraData).drop (2 + n) =
    (handles.flatMap wordBytes ++ (signatures.flatten ++ extraData)).drop n := by
  rw [inputProofOf, Nat.add_comm, List.drop_succ_cons, List.drop_succ_cons]

theorem length_handleBytes (handles : List Bytes32) :
    (handles.flatMap wordBytes).length = 32 * handles.length :=
  BigEndian.length_flatMap_blocks fun handle _ => length_wordBytes handle

theorem readByte_inputProofOf (extraData : Bytes) (hhandles : handles.length ≤ 255)
    (hsignatures : signatures.length ≤ 255) :
    readByte (inputProofOf handles signatures extraData) 0 = .ok handles.length ∧
      readByte (inputProofOf handles signatures extraData) 1 = .ok signatures.length := by
  refine ⟨readByte_eq_ok.mpr ⟨_, rfl, ?_⟩, readByte_eq_ok.mpr ⟨_, rfl, ?_⟩⟩
  all_goals
    rw [UInt8.toNat_ofNat']
    omega

theorem proofHandles_inputProofOf :
    proofHandles (inputProofOf handles signatures extraData) handles.length = handles := by
  have hlength : ∀ handle ∈ handles, (wordBytes handle).length = 32 :=
    fun handle _ => length_wordBytes handle
  have hblocks := BigEndian.blocks_flatMap hlength (signatures.flatten ++ extraData)
  have hwords := congrArg (List.map fun block => BitVec.ofNat 256 (BigEndian.decode block)) hblocks
  rw [List.map_map, List.map_map] at hwords
  simp only [proofHandles, readWord, drop_inputProofOf]
  refine hwords.trans ?_
  conv_rhs => rw [← List.map_id handles]
  exact List.map_congr_left fun block _ => ofNat_decode_wordBytes block

theorem proofSignatures_inputProofOf (hsize : ∀ signature ∈ signatures, signature.length = 65) :
    proofSignatures (inputProofOf handles signatures extraData) handles.length signatures.length =
      signatures := by
  have hblocks := BigEndian.blocks_flatMap (f := id) hsize extraData
  rw [List.flatMap_id, List.map_id] at hblocks
  simp only [proofSignatures, Nat.add_assoc, drop_inputProofOf, ← length_handleBytes,
    List.drop_length_add_append]
  exact hblocks

theorem extraData_inputProofOf (handles : List Bytes32) (extraData : Bytes)
    (hsize : ∀ signature ∈ signatures, signature.length = 65) :
    (inputProofOf handles signatures extraData).drop
        (2 + 32 * handles.length + 65 * signatures.length) = extraData ∧
      2 + 32 * handles.length + 65 * signatures.length ≤
        (inputProofOf handles signatures extraData).length := by
  have hflat : signatures.flatten.length = 65 * signatures.length := by
    have hblocks := BigEndian.length_flatMap_blocks (f := id) hsize
    rwa [List.flatMap_id] at hblocks
  constructor
  · rw [Nat.add_assoc, drop_inputProofOf, ← length_handleBytes, List.drop_length_add_append, ← hflat,
      List.drop_left]
  · simp only [inputProofOf, List.length_cons, List.length_append, length_handleBytes, hflat]
    omega

end Packed

/-! ## Acceptance -/

section Accepted

variable {D : Deployment} {V : SignatureScheme} {s : InputVerifierState}
  {context : ContextUserInputs} {handles : List Bytes32} {signatures : List Bytes}
  {signers : List Address} {extraData : Bytes}

/-- What the coprocessors sign for a list of inputs. -/
def packedData (D : Deployment) (context : ContextUserInputs) (handles : List Bytes32)
    (extraData : Bytes) : CiphertextVerification :=
  ⟨handles, context.userAddress, context.contractAddress, D.chainid, extraData⟩

/-- A list that distinct registered signers signed is accepted at each of its indices. -/
theorem proofOutcome_packed {isSigner : Address → Bool} {threshold index : Nat}
    (hhandles : handles.length ≤ 255) (hsignatures : signatures.length ≤ 255)
    (hindex : index < handles.length)
    (hversions : ∀ handle ∈ handles, handleVersion handle = HANDLE_VERSION)
    (hsize : ∀ signature ∈ signatures, signature.length = 65)
    (hrecover : List.Forall₂ (fun signature a => V.recover (hashEIP712InputVerification D V
      (packedData D context handles extraData)) signature = some a) signatures signers)
    (hsigners : ∀ a ∈ signers, isSigner a = true) (hpos : signers ≠ []) (hnodup : signers.Nodup)
    (hthreshold : threshold ≤ signatures.length) :
    proofOutcome D V isSigner threshold context index (inputProofOf handles signatures extraData) =
      .ok handles := by
  obtain ⟨hnumHandles, hnumSigners⟩ := readByte_inputProofOf extraData hhandles hsignatures
  obtain ⟨hextra, hlength⟩ := extraData_inputProofOf handles extraData hsize
  have hsame := hrecover.length_eq
  have hdata : signedData D context (inputProofOf handles signatures extraData) handles.length
      signatures.length = packedData D context handles extraData := by
    simp only [signedData, packedData, proofHandles_inputProofOf, hextra]
  refine proofOutcome_eq_ok.mpr ⟨_, _, hnumHandles, hnumSigners, ⟨hindex, by omega⟩, ?_⟩
  simp only [signaturesOutcome, bind_eq_ok, require_eq_ok, pure_eq_ok, exists_const, hdata,
    proofHandles_inputProofOf, proofSignatures_inputProofOf hsize, not_lt]
  refine ⟨hlength, hversions, ?_, hthreshold, true, ?_, rfl, trivial⟩
  · rw [← List.length_pos_iff_ne_nil, hsame]
    exact List.length_pos_iff.mpr hpos
  · apply signersOutcome_of_distinct hrecover hsigners hpos []
    · rwa [List.nil_append]
    · rw [List.length_nil]
      omega

/-- A handle is accepted where its proof is, whether the proof is remembered or not. -/
theorem verifyInput_of_outcome (hs : SlotsClear s) {handle : Bytes32} {inputProof : Bytes}
    (houtcome : proofOutcome D V s.isSigner s.threshold context (indexHandle handle).toNat
      inputProof = .ok handles)
    (hchain : (recoveredChainId handle).setWidth 256 = D.chainid)
    (hget : handles[(indexHandle handle).toNat]? = some handle) :
    ∃ s', verifyInput D V context handle inputProof s = .ok (handle, s') := by
  cases hcached : TransientSet.contains (cacheKey D context inputProof) s.transient with
  | false =>
    have hverify : verifyProof D V context (indexHandle handle).toNat inputProof s =
        .ok (handles, s) := by
      rw [verifyProof_eq hs, houtcome]
      rfl
    exact ⟨cacheProof (cacheKey D context inputProof) s, by
      simp [verifyInput, checkProofCache, hcached, require, hchain, hverify, hget, bind, Except.bind,
        pure, Except.pure]⟩
  | true =>
    obtain ⟨e, -, herror⟩ | ⟨element, hread, -, helement⟩ := readCachedProof_eq _ houtcome
    · rw [houtcome] at herror
      cases herror
    · obtain rfl : element = handle := Option.some.inj (helement.symm.trans hget)
      exact ⟨s, by simp [verifyInput, checkProofCache, hcached, require, hchain, hread, bind,
        Except.bind, pure, Except.pure]⟩

end Accepted

/-! ## Marks of signers -/

section Marks

variable {K : HostConfig}

/-- The proof that a call shows. -/
def HostCall.proof? {D : Deployment} : HostCall D → Option (ContextUserInputs × Bytes)
  | .executor ctx (.verifyInput _ userAddress inputProof _) =>
    some (⟨userAddress, ctx.sender⟩, inputProof)
  | .verifyInput context _ inputProof => some (context, inputProof)
  | _ => none

/-- The slots of the proofs of a run. -/
def proofSlots (K : HostConfig) (calls : List (HostCall K.deployment)) : Set Bytes32 :=
  {slot | ∃ i ∈ calls, ∃ p, i.proof? = some p ∧ proofSlot K.deployment p = slot}

/-- No proof of a run, nor the list of the remembered ones, is kept in the slot of a signer, which
is the address of an account. -/
structure SignersApart (K : HostConfig) (calls : List (HostCall K.deployment)) : Prop where
  proofs : ∀ a, K.isSigner a = true → addressWord a ∉ proofSlots K calls
  list : ∀ a, K.isSigner a = true → 2 * calls.length < a.toNat

/-- The signers are those of the deployment, and proofs are remembered in their slots. -/
structure VerifierWithin (K : HostConfig) (calls : List (HostCall K.deployment))
    (bound : Nat) (s : InputVerifierState) : Prop where
  isSigner_eq : s.isSigner = K.isSigner
  threshold_eq : s.threshold = K.threshold
  within : TransientSet.Within bound s.transient (proofSlots K calls)

variable {calls past : List (HostCall K.deployment)} {bound : Nat} {s s' : InputVerifierState}

theorem VerifierWithin.slotsClear (h : VerifierWithin K calls bound s)
    (hapart : SignersApart K calls) (hbound : bound ≤ 2 * calls.length) : SlotsClear s := by
  intro a ha
  rw [h.isSigner_eq] at ha
  by_contra hne
  obtain hlow | hproof := h.within.used _ hne
  · rw [toNat_addressWord] at hlow
    have := hapart.list a ha
    omega
  · exact hapart.proofs a ha hproof

theorem VerifierWithin.verifyInput (h : VerifierWithin K calls bound s)
    (hapart : SignersApart K calls) (hbound : bound ≤ 2 * calls.length)
    {context : ContextUserInputs} {handle result : Bytes32} {inputProof : Bytes}
    (hproof : proofSlot K.deployment (context, inputProof) ∈ proofSlots K calls)
    (hcall : verifyInput K.deployment K.signatures context handle inputProof s = .ok (result, s')) :
    VerifierWithin K calls (bound + 2) s' := by
  have hkept : VerifierWithin K calls (bound + 2) s :=
    ⟨h.isSigner_eq, h.threshold_eq, h.within.mono (Nat.le_add_right _ _) subset_rfl⟩
  simp only [Host.verifyInput, bind_eq_ok, require_eq_ok, exists_const] at hcall
  obtain ⟨-, hcall⟩ := hcall
  split_ifs at hcall
  · simp only [bind_eq_ok, require_eq_ok, exists_const] at hcall
    obtain ⟨-, -, -, heq⟩ := hcall
    cases heq
    exact hkept
  · rw [verifyProof_eq (h.slotsClear hapart hbound)] at hcall
    simp only [bind_eq_ok, require_eq_ok, exists_const] at hcall
    obtain ⟨⟨listHandles, _⟩, hverify, -, heq⟩ := hcall
    obtain ⟨_, -, hpair⟩ := map_eq_ok.mp hverify
    cases hpair
    cases heq
    exact ⟨h.isSigner_eq, h.threshold_eq, TransientSet.within_record h.within hproof⟩

/-- Proofs are remembered, and marks removed, in every run. -/
theorem verifierWithin (hapart : SignersApart K calls) (hs : past <:+ calls) :
    VerifierWithin K calls (2 * past.length) (hostAfter K past).verifier := by
  induction past with
  | nil => exact ⟨rfl, rfl, TransientSet.within_empty _ _⟩
  | cons i past ih =>
    have hpast := ih ((List.suffix_cons i past).trans hs)
    have hlength : past.length < calls.length := hs.length_le
    have hproof : ∀ p, i.proof? = some p → proofSlot K.deployment p ∈ proofSlots K calls :=
      fun p hp => ⟨i, hs.subset List.mem_cons_self, p, hp, rfl⟩
    have hkept : VerifierWithin K calls (2 * (i :: past).length) (hostAfter K past).verifier :=
      ⟨hpast.isSigner_eq, hpast.threshold_eq,
        hpast.within.mono (by rw [List.length_cons]; omega) subset_rfl⟩
    obtain ⟨e, -, hstep⟩ | ⟨o, hok⟩ := step_cases i (hostAfter K past) (C := hostChain K)
    · rwa [hostAfter_cons, hstep]
    · rw [hostAfter_cons]
      generalize (hostChain K).step i (hostAfter K past) = s' at hok ⊢
      cases i with
      | acl ctx call external =>
        obtain ⟨_, _, -, -, rfl⟩ := acl_eq_ok.mp hok
        exact hkept
      | executor ctx call =>
        obtain ⟨result, event, hcall, -⟩ := executor_eq_ok.mp hok
        cases hinput : call.isInput with
        | false =>
          obtain ⟨-, -, c, -, hperforms⟩ := executorCall_ok hinput hcall
          rwa [hperforms.verifier_eq]
        | true =>
          cases call with
          | verifyInput inputHandle userAddress inputProof inputType =>
            obtain ⟨-, -, -, -, -, -, -, hverify⟩ := verifyInput_ok hcall
            exact hpast.verifyInput hapart (by omega) (hproof _ rfl) hverify
          | _ => cases hinput
      | verifyInput context inputHandle inputProof =>
        obtain ⟨handle, verifier, hverify, -, rfl⟩ := verifyInput_eq_ok.mp hok
        exact hpast.verifyInput hapart (by omega) (hproof _ rfl) hverify
      | cleanProofCache =>
        cases hok
        exact ⟨hkept.isSigner_eq, hkept.threshold_eq, TransientSet.within_clear hkept.within⟩
      | endTransaction =>
        cases hok
        exact ⟨hkept.isSigner_eq, hkept.threshold_eq, TransientSet.within_empty _ _⟩

end Marks

end Fhevm.Host
