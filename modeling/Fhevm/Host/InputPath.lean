import Fhevm.Gateway.Materials
import Fhevm.Gateway.VerifiedProofs
import Fhevm.Host.PackedInputs
import Fhevm.ZkProof.VerifiedRequests

/-!
# The path of an input

A list of inputs is verified by the workers of the coprocessors, their answers reach consensus on
the gateway, and the host chain of the request accepts each handle of the list with the published
signatures.

## Main definitions

* `inputScheme`, `HostsGateway` — a host chain that has been given the domain of the gateway.
* `inputHandles_of_verifyProof` — what the worker writes into the handles of a list.
* `AcceptsInput` — a handle is accepted by the verifier, and by the executor unless the access
  control list is paused.
* `inputs_accepted` — all handles of a verified list are.
-/

namespace Fhevm.Host

open Foundation Contract Gateway ZkProof

/-! ## The worker -/

section Worker

variable {L R : Type} {keccak256 : Bytes → Bytes32} {T : ProofLibrary L R} {requestId : Int}
  {aux : ZkData} {rawCt : Bytes}

/-- The entries of an expanded list are of kinds that the coprocessor holds. -/
theorem kind_of_mem_expanded {expanded : List (SupportedFheCiphertexts R)}
    (h : tryVerifyAndExpandCiphertextList T requestId rawCt aux = .ok expanded)
    {ct : SupportedFheCiphertexts R} (hct : ct ∈ expanded) :
    ∃ kind : FheType, ct.typeNum = kind.toNat := by
  simp only [tryVerifyAndExpandCiphertextList, bind_eq_ok] at h
  obtain ⟨_, -, theList, -, h⟩ := h
  split_ifs at h
  · obtain rfl := pure_eq_ok.mp h
    cases hct
  · simp only [bind_eq_ok] at h
    obtain ⟨_, -, entries, -, hextract⟩ := h
    obtain ⟨entry, -, hentry⟩ := exists_of_mem_mapM hextract hct
    exact ⟨entry.1, typeNum_of_extractCt hentry⟩

/-- Each handle of a list has its position, the chain and the type of its ciphertext. -/
theorem inputHandles_of_verifyProof {cts : List ZkProof.Ciphertext} {blobHash : Bytes}
    {handles : List Bytes32}
    (h : ZkProof.verifyProof keccak256 T requestId aux rawCt = .ok (cts, blobHash))
    (hsame : handles.map wordBytes = cts.map ZkProof.Ciphertext.handle) {i : Nat} {handle : Bytes32}
    (hhandle : handles[i]? = some handle) :
    ∃ ct kind, cts[i]? = some ct ∧ ct.ctType = kind.toNat ∧
      InputHandle handle i aux.chainId.toInt.toNat kind := by
  obtain ⟨expanded, hexpanded, -, hall⟩ := verifyProof_ok h
  have hword := congrArg (fun bytes : List Bytes => bytes[i]?) hsame
  simp only [List.getElem?_map, hhandle, Option.map_some] at hword
  obtain ⟨ct, hct, hbytes⟩ := Option.map_eq_some_iff.mp hword.symm
  obtain ⟨hi, rfl⟩ := List.getElem?_eq_some_iff.mp hct
  obtain ⟨hlength, hget⟩ := List.forall₂_iff_get.mp hall
  have hi' : i < expanded.zipIdx.length := hlength ▸ hi
  have hcreated := hget i hi' hi
  rw [List.length_zipIdx] at hi'
  simp only [List.get_eq_getElem, List.getElem_zipIdx, Nat.zero_add] at hcreated
  obtain ⟨kind, hkind⟩ := kind_of_mem_expanded hexpanded (List.getElem_mem hi')
  have hhandleBytes := createCiphertext_handle hcreated
  simp only [createCiphertext, bind_eq_ok, require_eq_ok, pure_eq_ok, chainIdBytes_eq_ok] at hcreated
  obtain ⟨_, hindex, _, ⟨hchain, -⟩, hct'⟩ := hcreated
  have hchainId : aux.chainId.toUInt64.toNat = aux.chainId.toInt.toNat := by
    have hbits : aux.chainId.toUInt64.toNat = aux.chainId.toBitVec.toNat := rfl
    have hint : aux.chainId.toInt = aux.chainId.toBitVec.toInt := rfl
    rw [hint, BitVec.toInt_eq_toNat_cond] at hchain ⊢
    split_ifs at hchain ⊢ with hlow
    · rw [hbits, Int.toNat_natCast]
    · have := aux.chainId.toBitVec.isLt
      omega
  refine ⟨cts[i], kind, hct, ?_, ?_⟩
  · rw [← hct']
    exact (typeNum_addReRandomizationMetadata T _ _).trans hkind
  · rw [hkind] at hhandleBytes
    rw [← hchainId]
    exact inputHandle_of_bytes hindex aux.chainId.toUInt64.toNat_lt (hbytes.symm.trans hhandleBytes)

end Worker

/-! ## The domain of the gateway -/

/-- The hash under the domain of the gateway, and the recovery of signers. -/
def inputScheme (D : GatewayDeployment) : SignatureScheme where
  hashTypedDataV4 := toTypedDataHash D.keccak256
    (domainSeparator D.keccak256 "InputVerification" "1" D.chainid D.inputVerificationAddress)
  recover := D.recover

/-- The host chain has been given the chain and the address of the gateway. -/
structure HostsGateway (K : HostConfig) (D : GatewayDeployment) : Prop where
  keccak256 : K.deployment.keccak256 = D.keccak256
  signatures : K.signatures = inputScheme D

theorem paddedAddress_eq (a : Address) : paddedAddress a = wordBytes (addressWord a) := by
  rw [paddedAddress, wordBytes, toNat_addressWord]

/-- The struct that the host hashes is the one that the gateway hashes. -/
theorem hashEIP712InputVerification_eq {K : HostConfig} {D : GatewayDeployment}
    (hK : HostsGateway K D) {context : ContextUserInputs} {handles : List Bytes32}
    {extraData : Bytes} {chainId : Nat} (hchain : K.deployment.chainid.toNat = chainId) :
    hashEIP712InputVerification K.deployment K.signatures
        (packedData K.deployment context handles extraData) =
      hashCiphertextVerification D ⟨handles, context.userAddress, context.contractAddress, chainId,
        extraData⟩ := by
  subst hchain
  simp only [hashEIP712InputVerification, hashCiphertextVerification, packedData, hK.signatures,
    inputScheme, EIP712_INPUT_VERIFICATION_TYPEHASH, hK.keccak256, paddedAddress_eq]
  rfl

/-! ## Acceptance -/

/-- The verifier accepts the handle, and the executor accepts it with the type unless the access
control list is paused. -/
structure AcceptsInput (K : HostConfig) (s : HostState) (context : ContextUserInputs)
    (handle : Bytes32) (inputProof : Bytes) (type : FheType) : Prop where
  verifier : ∃ verifier, verifyInput K.deployment K.signatures context handle inputProof s.verifier =
    .ok (handle, verifier)
  executor : ∀ ctx : Context, ctx.sender = context.contractAddress →
    ((∃ r, FHEVMExecutor.verifyInput K.deployment K.signatures ctx handle context.userAddress
      inputProof type s = .ok r) ↔ s.acl.paused = false)

theorem acceptsInput {K : HostConfig} {s : HostState} {context : ContextUserInputs}
    {handle : Bytes32} {inputProof : Bytes} {type : FheType} (htype : typeOf handle = some type)
    {verifier : InputVerifierState} (h : verifyInput K.deployment K.signatures context handle
      inputProof s.verifier = .ok (handle, verifier)) :
    AcceptsInput K s context handle inputProof type := by
  refine ⟨⟨verifier, h⟩, fun ctx hctx => ⟨?_, fun hpaused => ?_⟩⟩
  · rintro ⟨⟨⟨result, event⟩, s'⟩, hok⟩
    have hcall : executorCall K.deployment K.signatures ctx s (.verifyInput handle
      context.userAddress inputProof type) = .ok ((result, event), s') := hok
    obtain ⟨-, -, -, hpaused, -⟩ := verifyInput_ok hcall
    exact hpaused
  · obtain ⟨user, contract⟩ := context
    obtain rfl : ctx.sender = contract := hctx
    simp only [FHEVMExecutor.verifyInput, h, FHEVMExecutor.allowResult, allowTransient,
      whenNotPaused, FHEVMExecutor.handleType, htype]
    simp [hpaused, require, bind, Except.bind, pure, Except.pure]

/-! ## The path -/

/-- The signers of the coprocessors that the gateway has at the answers to a proof are signers on
the host chain. -/
def SameCoprocessors (D : GatewayDeployment) (calls : List (GatewayTx × InputVerificationCall))
    (zkProofId : Nat) (K : HostConfig) : Prop :=
  ∀ v ∈ proofVotes D calls, v.topic.zkProofId = zkProofId →
    ∀ a, v.config.coprocessors.isSigner a = true → K.isSigner a = true

/-- The host chain accepts a list that the gateway has verified, at each of its handles. -/
theorem acceptsInput_of_declares {D : GatewayDeployment} (hsize : D.SignatureSize)
    {past : List (GatewayTx × InputVerificationCall)} {tx : GatewayTx} {zkProofId : Nat}
    {handles : List Bytes32} {signature extraData : Bytes} {signatures : List Bytes}
    (hdeclares : DeclaresSigned D (tx, .verifyProofResponse zkProofId handles signature extraData)
      (inputsAfter D past) zkProofId handles signatures)
    {input : ZKProofInput} (hrequested : ProofRequested D past zkProofId input)
    (hhandles : handles.length ≤ 255) (hcount : signatures.length ≤ 255)
    {K : HostConfig} (hK : HostsGateway K D)
    (hchain : K.deployment.chainid.toNat = input.contractChainId)
    (hsame : SameCoprocessors D ((tx, .verifyProofResponse zkProofId handles signature extraData) ::
      past) zkProofId K) (hthreshold : K.threshold ≤ signatures.length)
    {hostCalls : List (HostCall K.deployment)} (hapart : SignersApart K hostCalls)
    (hversions : ∀ handle ∈ handles, handleVersion handle = HANDLE_VERSION)
    {i : Nat} {handle : Bytes32} {kind : FheType} (hhandle : handles[i]? = some handle)
    (hread : InputHandle handle i input.contractChainId kind) :
    AcceptsInput K (hostAfter K hostCalls) ⟨input.userAddress, input.contractAddress⟩ handle
      (inputProofOf handles signatures extraData) kind := by
  obtain ⟨-, -, -, ballots, hne, rfl, hnodup, hballots⟩ := signatures_of_declares hdeclares
  have hinput := (proofRequested_iff.mp hrequested).2.2
  have hwithin := verifierWithin hapart List.suffix_rfl
  obtain ⟨hi, -⟩ := List.getElem?_eq_some_iff.mp hhandle
  have hrecovered : ∀ v ∈ ballots, D.recover ((inputsAfter D past).digest D zkProofId handles
      extraData) v.signature = some v.voter ∧ v.config.coprocessors.isSigner v.voter = true :=
    fun v hv => signed_of_mem (hballots v hv).1 (hballots v hv).2
  have houtcome : proofOutcome K.deployment K.signatures (hostAfter K hostCalls).verifier.isSigner
      (hostAfter K hostCalls).verifier.threshold ⟨input.userAddress, input.contractAddress⟩
        (indexHandle handle).toNat (inputProofOf handles (ballots.map Ballot.signature) extraData) =
          .ok handles := by
    rw [hwithin.isSigner_eq, hwithin.threshold_eq, hread.index_eq]
    refine proofOutcome_packed hhandles hcount hi hversions ?_ (?_ : List.Forall₂ _ _
      (ballots.map Ballot.voter)) ?_ ?_ ?_ ?_
    · intro signature hsignature
      obtain ⟨v, hv, rfl⟩ := List.mem_map.mp hsignature
      exact hsize _ _ _ (hrecovered v hv).1
    · rw [List.forall₂_map_left_iff, List.forall₂_map_right_iff]
      refine List.forall₂_same.mpr fun v hv => ?_
      rw [hashEIP712InputVerification_eq hK hchain, hK.signatures]
      have hdigest := (hrecovered v hv).1
      rwa [InputVerificationStorage.digest, hinput] at hdigest
    · intro a ha
      obtain ⟨v, hv, rfl⟩ := List.mem_map.mp ha
      obtain ⟨hmem, hverifies⟩ := hballots v hv
      have hid : v.topic.zkProofId = zkProofId := by
        cases ht : v.topic with
        | verified => exact (ht ▸ hverifies).1
        | rejected => exact (ht ▸ hverifies).elim
      exact hsame v hmem hid v.voter (hrecovered v hv).2
    · simpa using hne
    · exact hnodup
    · exact hthreshold
  have hchainId : (recoveredChainId handle).setWidth 256 = K.deployment.chainid := by
    apply BitVec.eq_of_toNat_eq
    have hlt := (recoveredChainId handle).isLt
    rw [BitVec.toNat_setWidth, hread.chain, hchain, Nat.mod_eq_of_lt]
    rw [← hread.chain]
    exact hlt.trans (by norm_num)
  obtain ⟨verifier, hverify⟩ := verifyInput_of_outcome
    (hwithin.slotsClear hapart le_rfl) houtcome hchainId (hread.index_eq.symm ▸ hhandle)
  exact acceptsInput hread.type_eq hverify

/-- If the answer of a coprocessor to a request makes the gateway publish a list of handles, they
are those of the ciphertexts that a worker has made for the request, and the host chain of the
request accepts each of them with its own type, in every state that it reaches. -/
theorem inputs_accepted {L R : Type} (D : GatewayDeployment) (hsize : D.SignatureSize)
    (C : SenderConfig) (tenants : Int64 → Option Tenant) (zkPast : List (ZkInput L R)) (zk : ZkState)
    (hzk : (zkProofs C tenants).Run (fun _ _ => True) zkPast zk)
    (past : List (GatewayTx × InputVerificationCall))
    (hevents : ∀ request, .event request ∈ zkPast → ProofRequested D past request.zkProofId
      ⟨request.contractChainId, request.contractAddress, request.userAddress⟩)
    (zkProofId : Int64) (handles : List Bytes32) (signature extraData : Bytes)
    (hsigned : .verifyProofResponse zkProofId handles signature extraData ∈ zk.signed)
    (tx : GatewayTx) (signatures : List Bytes)
    (hdeclares : DeclaresSigned D
      (tx, .verifyProofResponse zkProofId.toInt.toNat handles signature extraData)
        (inputsAfter D past) zkProofId.toInt.toNat handles signatures)
    (hcount : signatures.length ≤ 255) :
    ∃ (request : VerifyProofRequest) (T : ProofLibrary L R) (aux : ZkData)
      (cts : List ZkProof.Ciphertext) (blobHash : Bytes), .event request ∈ zkPast ∧
      zkProofId.toInt = request.zkProofId ∧
      ZkProof.verifyProof C.keccak256 T zkProofId.toInt aux request.ciphertextWithZKProof =
        .ok (cts, blobHash) ∧
      handles.map wordBytes = cts.map ZkProof.Ciphertext.handle ∧
      ∀ K, HostsGateway K D → K.deployment.chainid.toNat = request.contractChainId →
        SameCoprocessors D ((tx, .verifyProofResponse zkProofId.toInt.toNat handles signature
          extraData) :: past) request.zkProofId K →
        K.threshold ≤ signatures.length →
        ∀ hostCalls : List (HostCall K.deployment), SignersApart K hostCalls →
          ∀ (i : Nat) handle, handles[i]? = some handle → ∃ (ct : ZkProof.Ciphertext) (kind : FheType),
            cts[i]? = some ct ∧ ct.ctType = kind.toNat ∧
            AcceptsInput K (hostAfter K hostCalls) ⟨request.userAddress, request.contractAddress⟩
              handle (inputProofOf handles signatures extraData) kind := by
  obtain ⟨request, T, tenant, aux, theList, cts, blobHash, hevent, hid, hdata, -, -, -, -, hverify,
    hsame, hfew, -⟩ := (verified_requests hzk).2 zkProofId handles signature extraData hsigned
  refine ⟨request, T, aux, cts, blobHash, hevent, hid, hverify, hsame, ?_⟩
  intro K hK hchain hsigners hthreshold hostCalls hapart i handle hhandle
  have hnat : zkProofId.toInt.toNat = request.zkProofId := by omega
  rw [hnat] at hdeclares hsigners
  have hread : ∀ (i : Nat) handle, handles[i]? = some handle → ∃ (ct : ZkProof.Ciphertext)
      (kind : FheType), cts[i]? = some ct ∧ ct.ctType = kind.toNat ∧
        InputHandle handle i request.contractChainId kind := by
    intro i handle hhandle
    have hlisted := inputHandles_of_verifyProof hverify hsame hhandle
    rwa [hdata.chain, Int.toNat_natCast] at hlisted
  obtain ⟨ct, kind, hct, htype, hinput⟩ := hread i handle hhandle
  refine ⟨ct, kind, hct, htype, ?_⟩
  refine acceptsInput_of_declares hsize hdeclares (hevents request hevent) hfew hcount hK hchain
    hsigners hthreshold hapart (fun other hother => ?_) hhandle hinput
  obtain ⟨j, hj⟩ := List.mem_iff_getElem?.mp hother
  obtain ⟨_, _, -, -, hother⟩ := hread j other hj
  exact hother.version

/-! ## Two inputs -/

/-- The coprocessor 40 signs with 65 bytes. -/
def pathDeployment : GatewayDeployment :=
  { sampleDeployment with
    recover := fun _ signature => if signature.length = 65 then some 40 else none }

def pathSignature : Bytes := List.replicate 65 1

def pathSender : SenderConfig :=
  { sampleSender with signHash := fun _ => pathSignature }

def pathTenants (chainId : Int64) : Option Tenant :=
  if chainId = 1 then some ⟨1, 0xac1⟩ else none

/-- The account 10 shows the contract 11 of chain 1 two inputs of type `uint8`. -/
def pathRequest : VerifyProofRequest := ⟨1, 1, 11, 10, [1, 2], []⟩

def pathInputs : List (ZkInput ℕ Bytes) :=
  [.prepare 1, .verify 1 (ZkProof.sampleLibrary true), .event pathRequest]

def pathHandles : List Bytes32 := [66048, 1208925819614629174772224]

def pathRequested : List (GatewayTx × InputVerificationCall) :=
  [(⟨10, oneCoprocessor⟩, .verifyProofRequest 1 11 10 [1, 2] [] true)]

def pathResponse : GatewayTx × InputVerificationCall :=
  (⟨30, oneCoprocessor⟩, .verifyProofResponse 1 pathHandles pathSignature [])

def pathHost : HostConfig where
  deployment := ⟨pathDeployment.keccak256, 1, 2, 1⟩
  signatures := inputScheme pathDeployment
  isSigner a := a == 40
  threshold := 1

/-- The coprocessor signs its answer, and the gateway publishes it. -/
theorem pathRun : ∃ zk, (zkProofs pathSender pathTenants).Run (fun _ _ => True) pathInputs zk ∧
    .verifyProofResponse 1 pathHandles pathSignature [] ∈ zk.signed ∧
      DeclaresSigned pathDeployment pathResponse (inputsAfter pathDeployment pathRequested) 1
        pathHandles [pathSignature] := by
  have hsigned : ((zkProofs pathSender pathTenants).replay (fun _ _ => True) pathInputs).map
      ZkState.signed = some [.verifyProofResponse 1 pathHandles pathSignature []] := by
    decide +kernel
  obtain ⟨zk, hzk, hanswer⟩ := Option.map_eq_some_iff.mp hsigned
  have hevents : Prod.fst <$> (inputVerification pathDeployment).call pathResponse
      (inputsAfter pathDeployment pathRequested) =
        .ok [.verifyProofResponseCall 1 pathHandles pathSignature 30 [],
          .verifyProofResponse 1 pathHandles [pathSignature]] := by decide +kernel
  obtain ⟨⟨ev, s'⟩, hcall, rfl⟩ := map_eq_ok.mp hevents
  exact ⟨zk, System.run_of_replay hzk, hanswer ▸ List.mem_cons_self, _, s', hcall, by simp⟩

theorem pathRequest_requested (request : VerifyProofRequest)
    (h : .event request ∈ pathInputs) : request = pathRequest ∧
      ProofRequested pathDeployment pathRequested request.zkProofId
        ⟨request.contractChainId, request.contractAddress, request.userAddress⟩ := by
  obtain rfl : request = pathRequest := by simpa [pathInputs] using h
  exact ⟨rfl, proofRequested_iff.mpr (by decide +kernel)⟩

theorem pathHost_coprocessors (zkProofId : Nat) :
    SameCoprocessors pathDeployment (pathResponse :: pathRequested) zkProofId pathHost := by
  intro v hv _ a ha
  obtain ⟨i, past, hran, -, hcast⟩ := mem_votes.mp hv
  have hconfig : v.config = oneCoprocessor := by
    simp only [pathRequested, ran_cons, not_ran_nil, or_false] at hran
    obtain ⟨rfl, rfl⟩ | ⟨rfl, rfl⟩ := hran
    · cases hcast
      rfl
    · cases hcast
  have hsigner : oneCoprocessor.coprocessors.isSigner =
      Function.update (fun _ => false) 40 true := rfl
  rw [hconfig, hsigner] at ha
  by_contra hne
  have hother : a ≠ 40 := fun heq => hne (beq_iff_eq.mpr heq)
  rw [Function.update_of_ne hother] at ha
  cases ha

theorem pathInput_accepted : ∃ kind, AcceptsInput pathHost (hostAfter pathHost []) ⟨10, 11⟩
    1208925819614629174772224 (inputProofOf pathHandles [pathSignature] []) kind := by
  have hsize : pathDeployment.SignatureSize := by
    intro digest signature a h
    by_contra hne
    simp [pathDeployment, hne] at h
  have hapart : SignersApart pathHost [] := by
    constructor
    · rintro a - ⟨i, hi, -⟩
      cases hi
    · intro a ha
      rw [eq_of_beq ha]
      decide
  obtain ⟨zk, hzk, hsigned, hdeclares⟩ := pathRun
  obtain ⟨request, T, aux, cts, blobHash, hevent, -, -, -, haccepts⟩ := inputs_accepted pathDeployment
    hsize pathSender pathTenants pathInputs zk hzk pathRequested
      (fun request h => (pathRequest_requested request h).2) 1 pathHandles pathSignature [] hsigned
        ⟨30, oneCoprocessor⟩ [pathSignature] hdeclares (by decide)
  obtain ⟨rfl, -⟩ := pathRequest_requested request hevent
  obtain ⟨ct, kind, -, -, h⟩ := haccepts pathHost ⟨rfl, rfl⟩ rfl (pathHost_coprocessors _) (by decide)
    [] hapart 1 1208925819614629174772224 rfl
  exact ⟨kind, h⟩

/-- A pauser pauses the access control list. -/
def pathPaused : List (HostCall pathHost.deployment) :=
  [.acl { sampleContext 3 with isPauser := fun _ => true } .pause (by decide)]

/-- While the access control list is paused, the executor accepts no input. -/
theorem pathInput_paused : ∃ zk,
    (zkProofs pathSender pathTenants).Run (fun _ _ => True) pathInputs zk ∧
      .verifyProofResponse 1 pathHandles pathSignature [] ∈ zk.signed ∧
      DeclaresSigned pathDeployment pathResponse (inputsAfter pathDeployment pathRequested) 1
        pathHandles [pathSignature] ∧
      HostsGateway pathHost pathDeployment ∧
      SameCoprocessors pathDeployment (pathResponse :: pathRequested) 1 pathHost ∧
      pathHost.threshold ≤ 1 ∧ SignersApart pathHost pathPaused ∧
      ¬ ∃ r, FHEVMExecutor.verifyInput pathHost.deployment pathHost.signatures (sampleContext 11)
        1208925819614629174772224 10 (inputProofOf pathHandles [pathSignature] []) .uint8
          (hostAfter pathHost pathPaused) = .ok r := by
  obtain ⟨zk, hzk, hsigned, hdeclares⟩ := pathRun
  refine ⟨zk, hzk, hsigned, hdeclares, ⟨rfl, rfl⟩, pathHost_coprocessors 1, by decide, ⟨?_, ?_⟩, ?_⟩
  · rintro a - ⟨i, hi, p, hp, -⟩
    obtain rfl := List.mem_singleton.mp hi
    cases hp
  · intro a ha
    rw [eq_of_beq ha]
    decide
  · rintro ⟨⟨⟨result, event⟩, s'⟩, h⟩
    have hcall : executorCall pathHost.deployment pathHost.signatures (sampleContext 11) _
      (.verifyInput _ _ _ .uint8) = .ok ((result, event), s') := h
    obtain ⟨-, -, -, hpaused, -⟩ := verifyInput_ok hcall
    exact absurd hpaused (by decide)

end Fhevm.Host
