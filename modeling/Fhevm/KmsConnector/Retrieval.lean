import Fhevm.Gateway.Backed
import Fhevm.KmsConnector.EmittedRequests

/-!
# Ciphertexts from the buckets

The gateway requests the decryption of materials that the coprocessors have agreed on, and a worker
accepts what a bucket answers only if it has the digest that they have agreed on. So the buckets have
no say in what is decrypted, except for the format: it is read from a header that nothing is compared
with.

## Main definitions

* `Agreed` — the gateway has stored a material that a quorum has reported.
* `Retrieved` — a ciphertext is that of a material, in the format that a bucket says.
* `retrieved_agree` — two retrievals differ at most in the format.
-/

namespace Fhevm.KmsConnector

open Foundation Contract Gateway Host

/-! ## Materials of requests -/

def GatewayEventKind.snsCtMaterials : GatewayEventKind → List SnsCiphertextMaterial
  | .publicDecryption _ materials _ | .userDecryption _ materials _ _ _ => materials
  | _ => []

section Runs

variable (G : GatewayChain) (owner : Address)

/-- The material is stored for its handle, by a report that completed a quorum. -/
structure Agreed (calls : List (Address × GatewayCall)) (args : AddCiphertextMaterial) : Prop where
  stored : StoredAs G.toGatewayDeployment (gatewayAfter G owner calls).commits args
  reported : ∃ tx past, Ran ((commitsPart G).calls (.init owner) calls) (tx, args) past ∧
    tx.config.coprocessorThreshold ≤
      ((commitsAfter G.toGatewayDeployment ((tx, args) :: past)).coprocessorTxSenderAddresses
        (addCiphertextHash G.toGatewayDeployment args)).length

variable {G owner} {calls : List (Address × GatewayCall)} {s s' : GatewayState}

theorem agreed_of_added {ctHandle : Bytes32}
    (h : (gatewayAfter G owner calls).commits.isCiphertextMaterialAdded ctHandle = true) :
    ∃ args, args.ctHandle = ctHandle ∧ Agreed G owner calls args := by
  have hpart : (gatewayAfter G owner calls).commits =
      commitsAfter G.toGatewayDeployment ((commitsPart G).calls (.init owner) calls) :=
    (commitsPart G).part_exec calls
  have hsettled := materialsSettled G.toGatewayDeployment ((commitsPart G).calls (.init owner) calls)
  obtain ⟨⟨tx, args⟩, past, hran, -, hhandle, hstored, hquorum⟩ :=
    hsettled.agreed ctHandle (hpart ▸ h)
  exact ⟨args, hhandle, hpart ▸ hstored, tx, past, hran, hquorum⟩

theorem agreed_of_storedAs {args : AddCiphertextMaterial}
    (h : StoredAs G.toGatewayDeployment (gatewayAfter G owner calls).commits args) :
    Agreed G owner calls args := by
  obtain ⟨args', hhandle, hagreed⟩ := agreed_of_added h.added
  rwa [h.unique hagreed.stored hhandle.symm]

/-- The request is for materials that are stored for their handles. -/
def GatewayEventKind.Stored (G : GatewayChain) (s : GatewayState) (e : GatewayEventKind) : Prop :=
  ∀ m ∈ e.snsCtMaterials, ∃ args, StoredAs G.toGatewayDeployment s.commits args ∧
    m.ctHandle = args.ctHandle ∧ m.keyId = word args.keyId ∧
      m.snsCiphertextDigest = args.snsCiphertextDigest

/-- Materials stay stored. -/
theorem storedAs_step {args : AddCiphertextMaterial} (i : Address × GatewayCall)
    (h : StoredAs G.toGatewayDeployment s.commits args) :
    StoredAs G.toGatewayDeployment ((gateway G).step i s).commits args := by
  obtain ⟨sender, call⟩ := i
  rw [step_gateway]
  cases call with
  | commits report =>
    obtain ⟨e, he, hs⟩ | ⟨ev, hev⟩ :=
      step_cases (C := ciphertextCommits G.toGatewayDeployment) (⟨sender, s.config⟩, report) s.commits
    · change StoredAs _ ((ciphertextCommits G.toGatewayDeployment).step _ s.commits) args
      rwa [hs]
    · change StoredAs _ ((ciphertextCommits G.toGatewayDeployment).step _ s.commits) args
      rw [(addCiphertextMaterial_ok hev).2.2.2.1]
      exact h.afterReport
  | _ => exact h

/-- The materials of a request are those that the getter returns. -/
theorem materials_of_request {D : GatewayDeployment} {tx : GatewayTx} {call : DecryptionCall}
    {d d' : DecryptionStorage} {ev : List DecryptionEvent} {e : GatewayEventKind}
    (h : (decryption D).call (tx, call.inGateway s) d = .ok (ev, d'))
    (he : e ∈ ev.filterMap decryptionRequest?) : ∃ handles materials,
      getSnsCiphertextMaterials s.commits handles = .ok materials ∧
        e.snsCtMaterials = materials.map snsCiphertextMaterial := by
  cases call with
  | publicDecryptionRequest ctHandles extraData env =>
    simp only [decryption, DecryptionCall.inGateway, publicDecryptionRequest, bind_eq_ok,
      mapError_eq_ok] at h
    obtain ⟨_, -, _, -, _, -, materials, hmaterials, _, -, _, -, _, -, h⟩ := h
    cases h
    obtain rfl := List.mem_singleton.mp he
    exact ⟨ctHandles, materials, hmaterials, rfl⟩
  | userDecryptionRequest r env =>
    simp only [decryption, DecryptionCall.inGateway, userDecryptionRequest, bind_eq_ok,
      mapError_eq_ok] at h
    obtain ⟨_, -, _, -, _, -, _, -, _, -, handles, -, _, -, materials, hmaterials, _, -, _, -, _, -,
      h⟩ := h
    cases h
    obtain rfl := List.mem_singleton.mp he
    exact ⟨handles, materials, hmaterials, rfl⟩
  | publicDecryptionResponse id decryptedResult signature extraData =>
    simp only [decryption, DecryptionCall.inGateway, publicDecryptionResponse, bind_eq_ok] at h
    obtain ⟨_, -, _, -, _, -, h⟩ := h
    split_ifs at h <;> cases h <;> cases he
  | userDecryptionResponse id userDecryptedShare signature extraData =>
    simp only [decryption, DecryptionCall.inGateway, userDecryptionResponse, bind_eq_ok] at h
    obtain ⟨_, -, _, -, _, -, h⟩ := h
    split_ifs at h <;> cases h <;> cases he
  | pause isPauser =>
    simp only [decryption, DecryptionCall.inGateway, bind_eq_ok] at h
    obtain ⟨_, -, h⟩ := h
    cases h
    cases he
  | unpause =>
    simp only [decryption, DecryptionCall.inGateway, bind_eq_ok] at h
    obtain ⟨_, -, h⟩ := h
    cases h
    cases he

theorem snsCtMaterials_kmsRequest {ev : KMSGenerationEvent} {e : GatewayEventKind}
    (h : kmsRequest? ev = some e) : e.snsCtMaterials = [] := by
  cases ev <;> cases h <;> rfl

/-- A call requests materials that are stored when it is made. -/
theorem stored_of_call {i : Address × GatewayCall} {past : List (Address × GatewayCall)}
    {ev : GatewayEvents} {e : GatewayEventKind}
    (h : (gateway G).call i (gatewayAfter G owner past) = .ok (ev, s')) (he : e ∈ requestsAmong ev) :
    e.Stored G (gatewayAfter G owner past) := by
  obtain ⟨sender, call⟩ := i
  cases call with
  | decryption call =>
    obtain ⟨ev, d', hcall, rfl, rfl⟩ := onPart_eq_ok.mp h
    obtain ⟨handles, materials, hmaterials, hsame⟩ := materials_of_request hcall he
    intro m hm
    obtain ⟨material, hmaterial, rfl⟩ := List.mem_map.mp (hsame ▸ hm)
    obtain ⟨handle, -, hget⟩ := exists_of_mem_mapM hmaterials hmaterial
    simp only [CiphertextCommitsStorage.material, bind_eq_ok, require_eq_ok] at hget
    obtain ⟨-, hadded, hget⟩ := hget
    cases hget
    obtain ⟨args, rfl, hagreed⟩ := agreed_of_added hadded
    refine ⟨args, hagreed.stored, rfl, ?_, hagreed.stored.snsDigest⟩
    simp only [snsCiphertextMaterial, hagreed.stored.keyId]
  | kms call =>
    obtain ⟨ev, k', -, rfl, rfl⟩ := onPart_eq_ok.mp h
    obtain ⟨event, -, hevent⟩ := List.mem_filterMap.mp he
    intro m hm
    rw [snsCtMaterials_kmsRequest hevent] at hm
    cases hm
  | config _ | inputs _ | commits _ | allow _ | delegation _ _ =>
    obtain ⟨_, _, -, rfl, rfl⟩ := onPart_eq_ok.mp h
    cases he

/-- The materials of all requests of a run are stored at its end. -/
theorem stored_of_emitted {e : GatewayEventKind} (he : e ∈ emittedBy G owner calls) :
    e.Stored G (gatewayAfter G owner calls) := by
  induction calls with
  | nil => cases he
  | cons i past ih =>
    have hkept : ∀ {e}, GatewayEventKind.Stored G (gatewayAfter G owner past) e →
        e.Stored G (gatewayAfter G owner (i :: past)) := by
      intro e hstored m hm
      obtain ⟨args, hargs, hsame⟩ := hstored m hm
      exact ⟨args, storedAs_step i hargs, hsame⟩
    rw [emittedBy] at he
    obtain he | he := List.mem_append.mp he
    · exact hkept (ih he)
    · split at he
      · next ev s' hcall => exact hkept (stored_of_call hcall he)
      · cases he

end Runs

/-! ## Answers of the buckets -/

/-- The ciphertext is that of the material: its bytes have the digest, and its format is what the
header says that came with them. -/
structure Retrieved (L : KmsLibrary) (s3 : S3Answers) (args : AddCiphertextMaterial)
    (c : TypedCiphertext) : Prop where
  digest : L.keccak256 c.ciphertext = args.snsCiphertextDigest
  externalHandle : c.externalHandle = wordBytes args.ctHandle
  fheType : c.fheType = (byteAt args.ctHandle 30).toNat
  format : ∃ bucket url header, s3.get bucket url = some (c.ciphertext, header) ∧
    c.ciphertextFormat = ciphertextFormat header

section Retrieval

variable {L : KmsLibrary} {config : Config} {s3 s3' : S3Answers} {m : SnsCiphertextMaterial}
  {args : AddCiphertextMaterial} {c c' : TypedCiphertext}

theorem retrieved_of_answer {bucket : ℕ × ℕ} {url : String}
    (hhandle : m.ctHandle = args.ctHandle) (hdigest : m.snsCiphertextDigest = args.snsCiphertextDigest)
    (h : retrieveS3Ciphertext L s3 bucket m url = some c) : Retrieved L s3 args c := by
  obtain ⟨hexternal, htype⟩ := retrieveS3Ciphertext_handle h
  rw [hhandle] at hexternal htype
  simp only [retrieveS3Ciphertext, Option.bind_eq_bind, Option.bind_eq_some_iff, Option.pure_def,
    Option.some.injEq, Option.guard_eq_some'] at h
  obtain ⟨fheType, -, ⟨ciphertext, header⟩, hanswer, -, hsame, rfl⟩ := h
  exact ⟨hsame.trans hdigest, hexternal, htype, bucket, _, header, hanswer, rfl⟩

theorem retrieved_of_retry (hhandle : m.ctHandle = args.ctHandle)
    (hdigest : m.snsCiphertextDigest = args.snsCiphertextDigest)
    (h : retrieveS3CiphertextWithRetry L config s3 m = some c) : Retrieved L s3 args c := by
  obtain ⟨attempt, -, h⟩ := List.exists_of_findSome?_eq_some h
  obtain ⟨bucket, -, h⟩ := List.exists_of_findSome?_eq_some h
  exact retrieved_of_answer hhandle hdigest h

/-- Two retrievals for a material differ at most in the format. -/
theorem Retrieved.eq_up_to_format (h : Retrieved L s3 args c) (h' : Retrieved L s3' args c')
    (hfree : L.keccak256 c.ciphertext = L.keccak256 c'.ciphertext → c.ciphertext = c'.ciphertext) :
    c = { c' with ciphertextFormat := c.ciphertextFormat } := by
  obtain ⟨ciphertext, externalHandle, fheType, format⟩ := c
  obtain rfl : ciphertext = c'.ciphertext := hfree (h.digest.trans h'.digest.symm)
  obtain rfl : externalHandle = c'.externalHandle := h.externalHandle.trans h'.externalHandle.symm
  obtain rfl : fheType = c'.fheType := h.fheType.trans h'.fheType.symm
  rfl

/-- What two behaviours of the buckets lead to for a material of a request of the gateway: both are
the ciphertext that the coprocessors have agreed on, and they differ at most in the format, which is
what the header of the answer says. -/
theorem retrieved_agree (G : GatewayChain) (owner : Address) (calls : List (Address × GatewayCall))
    {e : GatewayEventKind} (he : e ∈ emittedBy G owner calls) (hm : m ∈ e.snsCtMaterials)
    (h : retrieveS3CiphertextWithRetry L config s3 m = some c)
    (h' : retrieveS3CiphertextWithRetry L config s3' m = some c')
    (hfree : L.keccak256 c.ciphertext = L.keccak256 c'.ciphertext → c.ciphertext = c'.ciphertext) :
    ∃ args, Agreed G owner calls args ∧ Retrieved L s3 args c ∧ Retrieved L s3' args c' ∧
      c = { c' with ciphertextFormat := c.ciphertextFormat } := by
  obtain ⟨args, hstored, hhandle, -, hdigest⟩ := stored_of_emitted he m hm
  have hc := retrieved_of_retry hhandle hdigest h
  have hc' := retrieved_of_retry hhandle hdigest h'
  exact ⟨args, agreed_of_storedAs hstored, hc, hc', hc.eq_up_to_format hc' hfree⟩

end Retrieval

/-! ## Samples -/

/-- One coprocessor reports the material of a handle, lets everybody decrypt it, and its decryption
is requested. The request meets an environment that stands for the other contracts. -/
def sampleRequested : List (Address × GatewayCall) :=
  [(9, .decryption (.publicDecryptionRequest [1 <<< 16] [] ⟨.init, .init, 0, true⟩)),
    (30, .allow ⟨.publicDecrypt (1 <<< 16), []⟩), (30, .commits ⟨1 <<< 16, 1, 2, 0⟩),
    (1, .config (.addHostChain 1)),
    (1, .config (.initializeFromEmptyProxy ⟨0, 1, 1, 1, 1⟩ [⟨20, 50, ""⟩] [⟨30, 60, ""⟩]
      [⟨40, 70, ""⟩]))]

def sampleMaterial : SnsCiphertextMaterial := ⟨1 <<< 16, 1, 0, [30]⟩

/-- A bucket that answers with a ciphertext and a header. -/
def bucketWith (header : Option String) : S3Answers where
  getCoprocessorS3Url _ := some "u"
  get _ _ := some ([9], header)

theorem sampleRequested_emitted : ∃ e ∈ emittedBy sampleChain 1 sampleRequested,
    sampleMaterial ∈ e.snsCtMaterials := by
  decide +kernel

def compressedBucket : S3Answers := bucketWith (some "compressed_on_cpu")

theorem retrieve_compressedBucket : retrieveS3CiphertextWithRetry sampleKmsLibrary sampleConfig
    compressedBucket sampleMaterial = some ⟨[9], wordBytes (1 <<< 16), 0, .bigCompressed⟩ := by
  decide +kernel

theorem retrieve_bareBucket : retrieveS3CiphertextWithRetry sampleKmsLibrary sampleConfig
    (bucketWith none) sampleMaterial = some ⟨[9], wordBytes (1 <<< 16), 0, .bigExpanded⟩ := by
  decide +kernel

theorem sampleRetrieved_agree : ∃ args, Agreed sampleChain 1 sampleRequested args ∧
    Retrieved sampleKmsLibrary compressedBucket args
      ⟨[9], wordBytes (1 <<< 16), 0, .bigCompressed⟩ ∧
    Retrieved sampleKmsLibrary (bucketWith none) args
      ⟨[9], wordBytes (1 <<< 16), 0, .bigExpanded⟩ := by
  obtain ⟨e, he, hm⟩ := sampleRequested_emitted
  obtain ⟨args, hagreed, hc, hc', -⟩ := retrieved_agree sampleChain 1 sampleRequested he hm
    retrieve_compressedBucket retrieve_bareBucket fun _ => rfl
  exact ⟨args, hagreed, hc, hc'⟩

/-- The header of a bucket decides the format. -/
theorem sampleRetrieved_differ : ¬ ∀ e ∈ emittedBy sampleChain 1 sampleRequested,
    ∀ m ∈ e.snsCtMaterials, ∀ s3 s3' c c',
      retrieveS3CiphertextWithRetry sampleKmsLibrary sampleConfig s3 m = some c →
      retrieveS3CiphertextWithRetry sampleKmsLibrary sampleConfig s3' m = some c' →
      (sampleKmsLibrary.keccak256 c.ciphertext = sampleKmsLibrary.keccak256 c'.ciphertext →
        c.ciphertext = c'.ciphertext) → c = c' := by
  intro h
  obtain ⟨e, he, hm⟩ := sampleRequested_emitted
  have hsame := h e he sampleMaterial hm _ _ _ _ retrieve_compressedBucket retrieve_bareBucket
    fun _ => rfl
  exact absurd hsame (by decide)

end Fhevm.KmsConnector
