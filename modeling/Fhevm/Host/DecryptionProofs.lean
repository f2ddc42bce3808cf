import Fhevm.Gateway.DecryptionConsensus
import Fhevm.Host.InputProofs
import Fhevm.Host.KMSVerifier

/-!
# Proofs of public decryptions

The proof that is built from the signatures of a result of the gateway is accepted on a host
chain with the same signers. Whatever byte string is accepted, as many registered signers as the
threshold signed for the gateway exactly the handles, the result and the bytes behind the
signatures.

## Main definitions

* `proofOf` — the proof for a result.
* `Deployed` — what every call leaves as it is.
* `verifies_iff` — which byte strings are accepted.
* `decryptionProofs_verified` — what holds of the results of the gateway, and of all byte strings.
-/

namespace Fhevm.Host.KMSVerifier

open Foundation Contract Gateway

/-! ## The digest -/

section Digest

variable (D : GatewayDeployment)

def resultEncoding (v : PublicDecryptVerification) : Bytes :=
  wordBytes (D.keccak256 (textBytes Gateway.EIP712_PUBLIC_DECRYPT_TYPE)) ++
    wordBytes (D.keccak256 (v.ctHandles.flatMap wordBytes)) ++
      wordBytes (D.keccak256 v.decryptedResult) ++ wordBytes (D.keccak256 v.extraData)

/-- The byte strings that are hashed for a result. -/
def resultStrings (v : PublicDecryptVerification) : List Bytes :=
  [v.ctHandles.flatMap wordBytes, v.decryptedResult, v.extraData, resultEncoding D v,
    typedDataEncoding (domainSeparator D.keccak256 "Decryption" "1" D.chainid D.decryptionAddress)
      (D.keccak256 (resultEncoding D v))]

/-- The hash has no collision between the corresponding strings of the two results. -/
def NoCollision (v v' : PublicDecryptVerification) : Prop :=
  List.Forall₂ (fun x y => D.keccak256 x = D.keccak256 y → x = y) (resultStrings D v)
    (resultStrings D v')

variable {D} {v v' : PublicDecryptVerification}

/-- The digest determines the handles, the result and the extra data. -/
theorem hashPublicDecryptVerification_eq_iff (hapart : NoCollision D v v') :
    hashPublicDecryptVerification D v = hashPublicDecryptVerification D v' ↔ v = v' := by
  constructor
  · intro h
    simp only [NoCollision, resultStrings, List.forall₂_cons, List.forall₂_nil_left_iff,
      and_true] at hapart
    obtain ⟨hhandlesApart, hresultApart, hextraApart, hstructApart, htypedApart⟩ := hapart
    have hstruct := hstructApart (typedDataEncoding_injective (htypedApart h)).2
    unfold resultEncoding at hstruct
    -- the fields of the struct are words, one after the other
    obtain ⟨hrest, hextra⟩ := List.append_inj hstruct (by simp)
    obtain ⟨hrest, hresult⟩ := List.append_inj hrest (by simp)
    have hhandles := hhandlesApart (wordBytes_injective (List.append_cancel_left hrest))
    have hhandles := BigEndian.flatMap_injective (by norm_num) length_wordBytes
      wordBytes_injective hhandles
    have hresult := hresultApart (wordBytes_injective hresult)
    have hextra := hextraApart (wordBytes_injective hextra)
    cases v
    cases v'
    simp_all
  · rintro rfl
    rfl

end Digest

/-! ## Runs of the contract -/

section Runs

variable {D : GatewayDeployment} {chainIDSource : BitVec 64} {calls : List Call} {s : Storage}

/-- The storage after a run on a host chain that was given the address of the gateway. -/
abbrev storageAfter (D : GatewayDeployment) (chainIDSource : BitVec 64) (calls : List Call) :
    Storage :=
  (contract D).exec (.init D.decryptionAddress chainIDSource) calls

/-- The domain is as it was set, and no mark of a signer is left by a call. -/
structure Deployed (D : GatewayDeployment) (chainIDSource : BitVec 64) (s : Storage) : Prop where
  address : s.verifyingContractSource = D.decryptionAddress
  chain : s.chainIDSource = chainIDSource
  unmarked : s.transient = TransientSet.empty

theorem Deployed.slotsClear (h : Deployed D chainIDSource s) : SlotsClear s.marks := by
  intro a _
  rw [Storage.marks, h.unmarked]
  rfl

/-- The answer of the loop, as this contract has it. -/
theorem verifySignaturesDigest_eq_ok (h : SlotsClear s.marks) {digest : Bytes32}
    {signatures : List Bytes} {isVerified : Bool} {s' : Storage} :
    s.verifySignaturesDigest D digest signatures = .ok (isVerified, s') ↔
      signatures ≠ [] ∧ s.threshold ≤ signatures.length ∧
        signersOutcome (s.scheme D) s.isSigner s.threshold digest signatures [] = .ok isVerified ∧
          s' = s := by
  have hcount := countSigners_nil (V := s.scheme D) h digest signatures
  have hmarks : ∀ s' : InputVerifierState, s' = s.marks →
      { s with transient := s'.transient } = s := by
    rintro _ rfl
    rfl
  simp only [Storage.verifySignaturesDigest, hcount, bind_eq_ok, require_eq_ok, mapError_eq_ok,
    pure_eq_ok, exists_const, not_lt]
  constructor
  · rintro ⟨hne, henough, ⟨verified, marks⟩, hok, heq⟩
    obtain ⟨b, houtcome, hpair⟩ := map_eq_ok.mp hok
    cases hpair
    obtain ⟨rfl, rfl⟩ := Prod.mk.inj heq
    exact ⟨hne, henough, houtcome, hmarks _ rfl⟩
  · rintro ⟨hne, henough, houtcome, rfl⟩
    refine ⟨hne, henough, (isVerified, s'.marks), map_eq_ok.mpr ⟨_, houtcome, rfl⟩, rfl⟩

theorem setThreshold_deployed {threshold : Nat} {s' : Storage} (hs : Deployed D chainIDSource s)
    (h : s.setThreshold threshold = .ok s') : Deployed D chainIDSource s' := by
  simp only [Storage.setThreshold, bind_eq_ok, require_eq_ok, pure_eq_ok, exists_const] at h
  obtain ⟨-, -, rfl⟩ := h
  exact ⟨hs.address, hs.chain, hs.unmarked⟩

theorem addSigners_deployed (newSignersSet : List Address) {s s' : Storage}
    (hs : Deployed D chainIDSource s)
    (h : newSignersSet.foldlM Storage.addSigner s = .ok s') : Deployed D chainIDSource s' := by
  refine foldlM_invariant (P := Deployed D chainIDSource) ?_ hs h
  intro s signer s' hs hstep
  simp only [Storage.addSigner, bind_eq_ok, require_eq_ok, pure_eq_ok, exists_const] at hstep
  obtain ⟨-, -, rfl⟩ := hstep
  exact ⟨hs.address, hs.chain, hs.unmarked⟩

theorem contract_deployed {i : Call} {o : Output} {s' : Storage} (hs : Deployed D chainIDSource s)
    (h : (contract D).call i s = .ok (o, s')) : Deployed D chainIDSource s' := by
  cases i with
  | defineNewContext isACLOwner newSignersSet newThreshold =>
    simp only [contract, defineNewContext, bind_eq_ok, require_eq_ok, pure_eq_ok,
      exists_const] at h
    obtain ⟨_, ⟨-, -, added, hadded, hthreshold⟩, heq⟩ := h
    cases heq
    have hremoved : Deployed D chainIDSource s.removeSigners :=
      ⟨hs.address, hs.chain, hs.unmarked⟩
    exact setThreshold_deployed (addSigners_deployed _ hremoved hadded) hthreshold
  | setThreshold isACLOwner threshold =>
    simp only [contract, setThreshold, bind_eq_ok, require_eq_ok, pure_eq_ok, exists_const] at h
    obtain ⟨_, ⟨-, hthreshold⟩, heq⟩ := h
    cases heq
    exact setThreshold_deployed hs hthreshold
  | verifyDecryptionEIP712KMSSignatures handlesList decryptedResult decryptionProof =>
    simp only [contract, bind_eq_ok, pure_eq_ok] at h
    obtain ⟨⟨isVerified, _⟩, hverify, heq⟩ := h
    cases heq
    unfold verifyDecryptionEIP712KMSSignatures at hverify
    split at hverify
    · cases hverify
    · simp only [bind_eq_ok, require_eq_ok, exists_const] at hverify
      obtain ⟨-, -, -, rfl⟩ := (verifySignaturesDigest_eq_ok hs.slotsClear).mp hverify.2
      exact hs
  | newTransaction =>
    cases h
    exact ⟨hs.address, hs.chain, rfl⟩

theorem deployed_storageAfter : Deployed D chainIDSource (storageAfter D chainIDSource calls) :=
  exec_invariant ⟨rfl, rfl, rfl⟩ (fun _ _ _ _ => contract_deployed) calls

/-- The digest is the one of the gateway. -/
theorem Deployed.hashDecryptionResult (h : Deployed D chainIDSource s)
    (hchain : chainIDSource.toNat = D.chainid) (v : PublicDecryptVerification) :
    s.hashDecryptionResult D v = hashPublicDecryptVerification D v := by
  have hscheme : (s.scheme D).hashTypedDataV4 = hashTypedDataV4CustomChainId D D.chainid := by
    funext structHash
    rw [Storage.scheme, h.address, h.chain, hchain]
    rfl
  rw [Storage.hashDecryptionResult, hscheme]
  rfl

end Runs

/-! ## Byte strings -/

section Proofs

variable {D : GatewayDeployment} {chainIDSource : BitVec 64} {s s' : Storage}
  {handlesList : List Bytes32} {decryptedResult extraData decryptionProof : Bytes}
  {signatures : List Bytes}

/-- The number of signatures, the signatures, and the extra data. -/
def proofOf (signatures : List Bytes) (extraData : Bytes) : Bytes :=
  UInt8.ofNat signatures.length :: (signatures.flatten ++ extraData)

/-- The number of signatures that a byte string announces. -/
def numSigners (decryptionProof : Bytes) : Nat := (decryptionProof.headD 0).toNat

/-- The bytes behind the signatures. -/
def extraDataOf (decryptionProof : Bytes) : Bytes :=
  decryptionProof.drop (1 + 65 * numSigners decryptionProof)

/-- Which byte strings are accepted, and that a call leaves the storage as it is. -/
theorem verifies_iff (hs : Deployed D chainIDSource s)
    (hchain : chainIDSource.toNat = D.chainid) {isVerified : Bool} :
    verifyDecryptionEIP712KMSSignatures D handlesList decryptedResult decryptionProof s =
        .ok (isVerified, s') ↔
      decryptionProof ≠ [] ∧ 1 + 65 * numSigners decryptionProof ≤ decryptionProof.length ∧
        decryptionSignatures decryptionProof (numSigners decryptionProof) ≠ [] ∧
          s.threshold ≤ numSigners decryptionProof ∧
            signersOutcome (s.scheme D) s.isSigner s.threshold (hashPublicDecryptVerification D
              ⟨handlesList, decryptedResult, extraDataOf decryptionProof⟩)
                (decryptionSignatures decryptionProof (numSigners decryptionProof)) [] =
                  .ok isVerified ∧ s' = s := by
  cases decryptionProof with
  | nil => simp [verifyDecryptionEIP712KMSSignatures]
  | cons count rest =>
    have hlength : (decryptionSignatures (count :: rest) count.toNat).length = count.toNat := by
      simp [decryptionSignatures]
    simp only [verifyDecryptionEIP712KMSSignatures, bind_eq_ok, require_eq_ok, exists_const,
      not_lt, verifySignaturesDigest_eq_ok hs.slotsClear, hs.hashDecryptionResult hchain, hlength,
      numSigners, extraDataOf, List.headD_cons, ne_eq, reduceCtorEq, not_false_eq_true, true_and]

/-- The parts of a proof are read as they were written. -/
theorem decryptionSignatures_proofOf (extraData : Bytes)
    (hsize : ∀ signature ∈ signatures, signature.length = 65) (hcount : signatures.length ≤ 255) :
    numSigners (proofOf signatures extraData) = signatures.length ∧
      decryptionSignatures (proofOf signatures extraData) signatures.length = signatures ∧
        extraDataOf (proofOf signatures extraData) = extraData ∧
          1 + 65 * signatures.length ≤ (proofOf signatures extraData).length := by
  have hnum : numSigners (proofOf signatures extraData) = signatures.length := by
    rw [numSigners, proofOf, List.headD_cons, UInt8.toNat_ofNat']
    omega
  have hflat : signatures.flatten.length = 65 * signatures.length := by
    have hblocks := BigEndian.length_flatMap_blocks (f := id) hsize
    rwa [List.flatMap_id] at hblocks
  have hdrop : ∀ n, (proofOf signatures extraData).drop (1 + n) =
      (signatures.flatten ++ extraData).drop n := by
    intro n
    rw [proofOf, Nat.add_comm, List.drop_succ_cons]
  refine ⟨hnum, ?_, ?_, ?_⟩
  · have hblocks := BigEndian.blocks_flatMap (f := id) hsize extraData
    rw [List.flatMap_id, List.map_id] at hblocks
    simp only [decryptionSignatures, hdrop]
    exact hblocks
  · rw [extraDataOf, hnum, hdrop, ← hflat, List.drop_left]
  · rw [proofOf, List.length_cons, List.length_append, hflat]
    omega

/-- The proof of a result that distinct registered signers signed is accepted. -/
theorem proofOf_verified (hs : Deployed D chainIDSource s)
    (hchain : chainIDSource.toNat = D.chainid)
    (hsize : ∀ signature ∈ signatures, signature.length = 65) (hcount : signatures.length ≤ 255)
    {signers : List Address} (hrecover : List.Forall₂ (fun signature a => D.recover
      (hashPublicDecryptVerification D ⟨handlesList, decryptedResult, extraData⟩) signature =
        some a) signatures signers)
    (hsigners : ∀ a ∈ signers, s.isSigner a = true) (hpos : signers ≠ []) (hnodup : signers.Nodup)
    (hthreshold : s.threshold ≤ signatures.length) :
    verifyDecryptionEIP712KMSSignatures D handlesList decryptedResult
      (proofOf signatures extraData) s = .ok (true, s) := by
  obtain ⟨hnum, hsignatures, hextra, hlength⟩ := decryptionSignatures_proofOf extraData hsize
    hcount
  have hsame := hrecover.length_eq
  rw [verifies_iff hs hchain, hnum, hsignatures, hextra]
  refine ⟨List.cons_ne_nil _ _, hlength, ?_, hthreshold, ?_, rfl⟩
  · rw [← List.length_pos_iff, hsame]
    exact List.length_pos_iff.mpr hpos
  · apply signersOutcome_of_distinct (V := s.scheme D) hrecover hsigners hpos []
    · rwa [List.nil_append]
    · rw [List.length_nil]
      omega

/-- What was signed for an accepted byte string. -/
structure SignedForGateway (D : GatewayDeployment) (s : Storage) (handlesList : List Bytes32)
    (decryptedResult decryptionProof : Bytes) : Prop where
  signers : ∃ signers : Finset Address, s.threshold ≤ signers.card ∧ ∀ a ∈ signers,
    s.isSigner a = true ∧
      ∃ signature ∈ decryptionSignatures decryptionProof (numSigners decryptionProof),
        D.recover (hashPublicDecryptVerification D
          ⟨handlesList, decryptedResult, extraDataOf decryptionProof⟩) signature = some a
  covers : ∀ v, NoCollision D v ⟨handlesList, decryptedResult, extraDataOf decryptionProof⟩ →
    hashPublicDecryptVerification D v = hashPublicDecryptVerification D
      ⟨handlesList, decryptedResult, extraDataOf decryptionProof⟩ →
        v = ⟨handlesList, decryptedResult, extraDataOf decryptionProof⟩

theorem signed_of_verifies (hs : Deployed D chainIDSource s)
    (hchain : chainIDSource.toNat = D.chainid)
    (h : verifyDecryptionEIP712KMSSignatures D handlesList decryptedResult decryptionProof s =
      .ok (true, s')) : SignedForGateway D s handlesList decryptedResult decryptionProof := by
  obtain ⟨-, -, -, -, houtcome, -⟩ := (verifies_iff hs hchain).mp h
  exact ⟨signersOutcome_true _ (List.Subset.refl _) [] List.nodup_nil (by simp) houtcome,
    fun v hapart heq => (hashPublicDecryptVerification_eq_iff hapart).mp heq⟩

end Proofs

/-! ## Results of the gateway -/

/-- The KMS signers that the gateway has at the responses to the decryption are signers on the
host chain. -/
def SameSigners (D : GatewayDeployment) (calls : List (GatewayTx × DecryptionCall)) (id : Nat)
    (s : Storage) : Prop :=
  ∀ v ∈ decryptionVotes D calls, v.topic.decryptionId = id →
    ∀ a, v.config.kms.isSigner a = true → s.isSigner a = true

/-- On every host chain with the gateway's domain, the proof of each result of the gateway is
accepted where the signers are the same and the threshold is reached; and whatever is accepted has
been signed for the gateway by as many registered signers as the threshold. -/
theorem decryptionProofs_verified (D : GatewayDeployment) (hsize : D.SignatureSize)
    (chainIDSource : BitVec 64) (hchain : chainIDSource.toNat = D.chainid) (hostCalls : List Call) :
    let s := storageAfter D chainIDSource hostCalls
    (∀ i past id decryptedResult extraData signatures,
      DeclaresDecryption D i (decryptionAfter D past)
        (.publicResult id decryptedResult extraData signatures) →
      signatures.length ≤ 255 → SameSigners D (i :: past) id s →
      s.threshold ≤ signatures.length →
      ∃ handlesList, PublicRequested D past id handlesList ∧ 1 ≤ signatures.length ∧
        verifyDecryptionEIP712KMSSignatures D handlesList decryptedResult
          (proofOf signatures extraData) s = .ok (true, s)) ∧
    ∀ handlesList decryptedResult decryptionProof s',
      verifyDecryptionEIP712KMSSignatures D handlesList decryptedResult decryptionProof s =
        .ok (true, s') → SignedForGateway D s handlesList decryptedResult decryptionProof := by
  intro s
  have hs : Deployed D chainIDSource s := deployed_storageAfter
  refine ⟨?_, fun _ _ _ _ h => signed_of_verifies hs hchain h⟩
  intro i past id decryptedResult extraData signatures hdeclares hcount hsame hthreshold
  obtain ⟨handlesList, hrequested, ballots, hballots, hne, rfl, -⟩ :=
    publicSignatures_of_declares hdeclares
  have hrecover := signatures_recovered hballots
  refine ⟨handlesList, hrequested, ?_, ?_⟩
  · rw [List.length_map]
    exact List.length_pos_iff.mpr hne
  · apply proofOf_verified hs hchain _ hcount hrecover _ _ _ hthreshold
    · intro signature hsignature
      obtain ⟨v, hv, rfl⟩ := List.mem_map.mp hsignature
      have hrec := (responded_of_mem (List.mem_filter.mp (hballots ▸ hv)).1).1
      exact hsize _ _ _ hrec
    · intro a ha
      obtain ⟨v, hv, rfl⟩ := List.mem_map.mp ha
      obtain ⟨hmem, hcounts⟩ := List.mem_filter.mp (hballots ▸ hv)
      have htopic : v.topic = .publicResult id _ := of_decide_eq_true hcounts
      have hid : v.topic.decryptionId = id := congrArg DecryptionAnswer.decryptionId htopic
      exact hsame v hmem hid v.voter (responded_of_mem hmem).2.2.1
    · simpa using hne
    · rw [hballots]
      exact decryptionVoters_nodup (.publicResult id _)

/-! ## A result -/

/-- The node 40 signs with 65 bytes. -/
def proofDeployment : GatewayDeployment :=
  { sampleDeployment with
    recover := fun _ signature => if signature.length = 65 then some 40 else none }

def sampleSignature : Bytes := List.replicate 65 1

/-- A boolean is requested and decrypted. -/
def sampleRequest : List (GatewayTx × DecryptionCall) :=
  [(⟨9, oneKmsNode⟩, .publicDecryptionRequest [1 <<< 16] [] openEnv)]

def sampleResponse : GatewayTx × DecryptionCall :=
  (⟨30, oneKmsNode⟩,
    .publicDecryptionResponse (PUBLIC_DECRYPT_COUNTER_BASE + 1) [1] sampleSignature [7])

def sampleContext : List Call := [.defineNewContext true [40] 1]

theorem sampleResponse_verified :
    verifyDecryptionEIP712KMSSignatures proofDeployment [1 <<< 16] [1]
        (proofOf [sampleSignature] [7]) (storageAfter proofDeployment 5 sampleContext) =
          .ok (true, storageAfter proofDeployment 5 sampleContext) ∧
      SignedForGateway proofDeployment (storageAfter proofDeployment 5 sampleContext) [1 <<< 16]
        [1] (proofOf [sampleSignature] [7]) := by
  have hsize : proofDeployment.SignatureSize := by
    intro digest signature a h
    by_contra hne
    simp [proofDeployment, hne] at h
  obtain ⟨hcomplete, hsound⟩ := decryptionProofs_verified proofDeployment hsize 5 rfl sampleContext
  have hdeclares : DeclaresDecryption proofDeployment sampleResponse
      (decryptionAfter proofDeployment sampleRequest)
        (.publicResult (PUBLIC_DECRYPT_COUNTER_BASE + 1) [1] [7] [sampleSignature]) := by
    refine declaresDecryption_iff.mpr ⟨?_, _, rfl, ?_, ?_⟩
    · exact exists_of_isOk (by decide +kernel)
    · exact ⟨by decide +kernel, by decide +kernel⟩
    · decide +kernel
  have hsame : SameSigners proofDeployment (sampleResponse :: sampleRequest)
      (PUBLIC_DECRYPT_COUNTER_BASE + 1) (storageAfter proofDeployment 5 sampleContext) := by
    intro v hv _ a ha
    obtain ⟨i, past, hran, -, hcast⟩ := mem_votes.mp hv
    have hconfig : v.config = oneKmsNode := by
      simp only [sampleRequest, ran_cons, not_ran_nil, or_false] at hran
      obtain ⟨rfl, rfl⟩ | ⟨rfl, rfl⟩ := hran
      · cases hcast
        rfl
      · cases hcast
    obtain rfl : a = 40 := by
      have hkms : oneKmsNode.kms.isSigner = Function.update (fun _ => false) 40 true := rfl
      rw [hconfig, hkms] at ha
      by_contra hne
      rw [Function.update_of_ne hne] at ha
      cases ha
    decide +kernel
  obtain ⟨handlesList, hrequested, -, hverified⟩ := hcomplete sampleResponse sampleRequest _ [1] [7]
    [sampleSignature] hdeclares (by decide) hsame (by decide +kernel)
  obtain rfl : ([1 <<< 16] : List Bytes32) = handlesList := by
    rw [← (publicRequested_iff.mp hrequested).2.2]
    decide +kernel
  exact ⟨hverified, hsound _ _ _ _ hverified⟩

end Fhevm.Host.KMSVerifier
