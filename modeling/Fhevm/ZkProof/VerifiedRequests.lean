import Fhevm.ZkProof.VerifyProofs

/-!
# Verified requests

A request is marked as verified, and answered, for a list whose proof has been checked against its
own data, and the answer has the handles of the ciphertexts that have been inserted. A list without
inputs has no proof that could be checked.

## Main definitions

* `ProofChecked` — the library has accepted the proof of a list for the data of a request.
* `Justified` — where the handles of an answer come from.
* `verified_requests` — they do in every run.
-/

namespace Fhevm.ZkProof

open Foundation Contract Host

/-! ## The handles of a list -/

section Handles

variable {keccak256 : Bytes → Bytes32} {L R : Type} {T : ProofLibrary L R} {requestId : Int}
  {aux : ZkData} {rawCt : Bytes} {cts : List Ciphertext} {blobHash : Bytes}

theorem length_handle {ctIdx : ℕ} {theCt : SupportedFheCiphertexts R} {ct : Ciphertext}
    (h : createCiphertext keccak256 T blobHash ctIdx theCt aux = .ok ct) : ct.handle.length = 32 := by
  rw [createCiphertext_handle h]
  simp

/-- The ciphertexts are at most 255, and their handles are words. -/
theorem verifyProof_words (h : verifyProof keccak256 T requestId aux rawCt = .ok (cts, blobHash)) :
    cts.length ≤ 255 ∧ ∃ handles : List Bytes32,
      handles.map wordBytes = cts.map Ciphertext.handle := by
  obtain ⟨expanded, -, -, hall⟩ := verifyProof_ok h
  obtain ⟨hlength, hget⟩ := List.forall₂_iff_get.mp hall
  constructor
  · by_contra hlong
    -- the index 255 is refused
    have hcreated := hget 255 (by omega) (by omega)
    simp only [createCiphertext, bind_eq_ok, require_eq_ok] at hcreated
    obtain ⟨_, hindex, -⟩ := hcreated
    simp [MAX_INPUT_INDEX] at hindex
  · refine ⟨cts.map fun ct => BitVec.ofNat 256 (BigEndian.decode ct.handle), ?_⟩
    rw [List.map_map]
    refine List.map_congr_left fun ct hct => ?_
    obtain ⟨i, rfl⟩ := List.mem_iff_get.mp hct
    have hi := i.isLt
    have hword := length_handle (hget i (by omega) hi)
    have hlt : BigEndian.decode (cts.get i).handle < 2 ^ 256 := by
      have h := BigEndian.decode_lt (cts.get i).handle
      rw [hword] at h
      exact h.trans_eq (by norm_num)
    change BigEndian.encode 32 (BitVec.ofNat 256 _).toNat = _
    rw [BitVec.toNat_ofNat, Nat.mod_eq_of_lt hlt]
    have hbytes := BigEndian.encode_decode (cts.get i).handle
    rwa [hword] at hbytes

/-- No proof is needed for a list without inputs, and none of its ciphertexts is inserted. -/
theorem verifyProof_empty {theList : L} (hlist : T.safeDeserializeConformant rawCt = .ok theList)
    (hlen : T.len theList = 0) (h : verifyProof keccak256 T requestId aux rawCt = .ok (cts, blobHash)) :
    cts = [] := by
  obtain ⟨expanded, hexpanded, -, hall⟩ := verifyProof_ok h
  simp only [tryVerifyAndExpandCiphertextList, bind_eq_ok, hlist, Except.mapError,
    Except.ok.injEq, exists_eq_left', if_pos hlen, pure_eq_ok] at hexpanded
  obtain ⟨_, -, rfl⟩ := hexpanded
  exact List.forall₂_nil_left_iff.mp hall

/-- The words of concatenated words. -/
theorem chunks_flatMap (handles : List Bytes32) :
    chunks handles.length (handles.flatMap wordBytes) = handles := by
  induction handles with
  | nil => rfl
  | cons word handles ih =>
    rw [List.length_cons, List.flatMap_cons, chunks, List.take_left' (length_wordBytes _),
      List.drop_left' (length_wordBytes _), ih, ofNat_decode_wordBytes]

end Handles

/-! ## Justified answers -/

section Justified

variable {L R : Type}

/-- The library has accepted the proof of a list for the data of a request. -/
def ProofChecked (T : ProofLibrary L R) (theList : L) (aux : ZkData) : Prop :=
  ∃ auxDataBytes expanded, aux.assemble = .ok auxDataBytes ∧
    T.verifyAndExpand theList auxDataBytes = .ok expanded

variable (C : SenderConfig) (tenants : Int64 → Option Tenant)

/-- The data of a request of the gateway, with the access control list of its chain. -/
structure DataOf (request : VerifyProofRequest) (tenant : Tenant) (aux : ZkData) : Prop where
  contract : aux.contractAddress = request.contractAddress
  user : aux.userAddress = request.userAddress
  chain : aux.chainId.toInt = request.contractChainId
  registered : tenants aux.chainId = some tenant
  acl : aux.aclContractAddress = tenant.aclContractAddress

/-- The handles are those of the ciphertexts of a request that a worker has inserted, after it has
checked the proof of their list unless that is empty. -/
inductive Justified (past : List (ZkInput L R)) (db : ZkDatabase) (id : Int64)
    (handles : List Bytes32) : Prop
  | intro (request : VerifyProofRequest) (T : ProofLibrary L R) (tenant : Tenant) (aux : ZkData)
      (theList : L) (cts : List Ciphertext) (blobHash : Bytes)
      (event : .event request ∈ past) (id_eq : id.toInt = request.zkProofId)
      (data : DataOf tenants request tenant aux) (verified : .verify id T ∈ past)
      (list : T.safeDeserializeConformant request.ciphertextWithZKProof = .ok theList)
      (checked : T.len theList ≠ 0 → ProofChecked T theList aux)
      (unchecked : T.len theList = 0 → handles = [])
      (expanded : verifyProof C.keccak256 T id.toInt aux request.ciphertextWithZKProof =
        .ok (cts, blobHash))
      (same : handles.map wordBytes = cts.map Ciphertext.handle) (few : handles.length ≤ 255)
      (inserted : ∀ ct ∈ cts, (ct.row tenant).key ∈ db.ciphertexts.rows.map Worker.Ciphertext.key)

variable {C tenants} {past past' : List (ZkInput L R)} {db db' : ZkDatabase} {id : Int64}
  {handles : List Bytes32}

theorem Justified.mono (h : Justified C tenants past db id handles) (hpast : past ⊆ past')
    (hdb : ∀ k ∈ db.ciphertexts.rows.map Worker.Ciphertext.key,
      k ∈ db'.ciphertexts.rows.map Worker.Ciphertext.key) :
    Justified C tenants past' db' id handles := by
  obtain ⟨request, T, tenant, aux, theList, cts, blobHash, hevent, hid, hdata, hverified, hlist,
    hchecked, hunchecked, hexpanded, hsame, hfew, hinserted⟩ := h
  exact ⟨request, T, tenant, aux, theList, cts, blobHash, hpast hevent, hid, hdata,
    hpast hverified, hlist, hchecked, hunchecked, hexpanded, hsame, hfew,
    fun ct hct => hdb _ (hinserted ct hct)⟩

/-- A row has the data of an event. -/
structure RowOf (past : List (ZkInput L R)) (row : VerifyProof) (request : VerifyProofRequest) :
    Prop where
  event : .event request ∈ past
  id : row.zkProofId.toInt = request.zkProofId
  chain : row.chainId.toInt = request.contractChainId
  contract : row.contractAddress = request.contractAddress
  user : row.userAddress = request.userAddress
  input : row.input = request.ciphertextWithZKProof

/-- What a list gives that is found valid for a row. -/
theorem justified_of_verifyProof (db : ZkDatabase) {row : VerifyProof} {request : VerifyProofRequest}
    {T : ProofLibrary L R} {tenant : Tenant} {cts : List Ciphertext} {blobHash : Bytes}
    (hrow : RowOf past row request) (htenant : tenants row.chainId = some tenant)
    (hverify : .verify row.zkProofId T ∈ past)
    (h : verifyProof C.keccak256 T row.zkProofId.toInt (row.aux tenant) row.input =
      .ok (cts, blobHash))
    (hinserted : ∀ ct ∈ cts, (ct.row tenant).key ∈ db.ciphertexts.rows.map Worker.Ciphertext.key) :
    ∃ handles : List Bytes32, cts.flatMap Ciphertext.handle = handles.flatMap wordBytes ∧
      Justified C tenants past db row.zkProofId handles := by
  obtain ⟨hfew, handles, hsame⟩ := verifyProof_words h
  have hdata : DataOf tenants request tenant (row.aux tenant) :=
    ⟨hrow.contract, hrow.user, hrow.chain, htenant, rfl⟩
  obtain ⟨expanded, hexpanded, -, -⟩ := verifyProof_ok h
  rw [hrow.input] at h hexpanded
  have hlist : ∃ theList, T.safeDeserializeConformant request.ciphertextWithZKProof = .ok theList := by
    simp only [tryVerifyAndExpandCiphertextList, bind_eq_ok, mapError_eq_ok] at hexpanded
    obtain ⟨_, -, theList, hlist, -⟩ := hexpanded
    exact ⟨theList, hlist⟩
  obtain ⟨theList, hlist⟩ := hlist
  have hlength : handles.length = cts.length := by
    simpa using congrArg List.length hsame
  refine ⟨handles, ?_, request, T, tenant, row.aux tenant, theList, cts, blobHash, hrow.event,
    hrow.id, hdata, hverify, hlist, fun hlen => ?_, fun hlen => ?_, h, hsame, hlength ▸ hfew,
    hinserted⟩
  · rw [List.flatMap_def, List.flatMap_def, hsame]
  · obtain ⟨auxDataBytes, entries, haux, hentries, -⟩ := tryVerifyAndExpand_ok hlist hlen hexpanded
    exact ⟨auxDataBytes, entries, haux, hentries⟩
  · rw [verifyProof_empty hlist hlen h] at hlength
    exact List.eq_nil_of_length_eq_zero hlength

/-! ## Runs -/

variable (C tenants)

/-- What holds of the requests and of the answers of a run. -/
structure ZkInvariant (past : List (ZkInput L R)) (s : ZkState) : Prop where
  rows : ∀ row ∈ s.db.verifyProofs.rows, ∃ request, RowOf past row request
  marked : ∀ row ∈ s.db.verifyProofs.rows, row.verified = some true → ∃ handles : List Bytes32,
    row.handles = some (handles.flatMap wordBytes) ∧
      Justified C tenants past s.db row.zkProofId handles
  signed : ∀ zkProofId handles signature extraData,
    .verifyProofResponse zkProofId handles signature extraData ∈ s.signed →
      Justified C tenants past s.db zkProofId handles

variable {C tenants} {s s' : ZkState} {i : ZkInput L R}

theorem RowOf.mono {row row' : VerifyProof} {request : VerifyProofRequest}
    (h : RowOf past row request) (hpast : past ⊆ past') (hid : row'.zkProofId = row.zkProofId)
    (hchain : row'.chainId = row.chainId) (hcontract : row'.contractAddress = row.contractAddress)
    (huser : row'.userAddress = row.userAddress) (hinput : row'.input = row.input) :
    RowOf past' row' request where
  event := hpast h.event
  id := hid ▸ h.id
  chain := hchain ▸ h.chain
  contract := hcontract ▸ h.contract
  user := huser ▸ h.user
  input := hinput ▸ h.input

/-- Rows that are gone or that are retried once more change nothing. -/
theorem ZkInvariant.keep (h : ZkInvariant C tenants past s)
    (hrows : ∀ row ∈ s'.db.verifyProofs.rows, ∃ old ∈ s.db.verifyProofs.rows, ∃ retryCount,
      row = { old with retryCount })
    (hciphertexts : s'.db.ciphertexts = s.db.ciphertexts) (hsigned : s'.signed = s.signed) :
    ZkInvariant C tenants (i :: past) s' where
  rows row hrow := by
    obtain ⟨old, hold, retryCount, rfl⟩ := hrows row hrow
    obtain ⟨request, hrequest⟩ := h.rows old hold
    exact ⟨request, hrequest.mono (List.subset_cons_self _ _) rfl rfl rfl rfl rfl⟩
  marked row hrow hverified := by
    obtain ⟨old, hold, retryCount, rfl⟩ := hrows row hrow
    obtain ⟨handles, hhandles, hjustified⟩ := h.marked old hold hverified
    exact ⟨handles, hhandles, hjustified.mono (List.subset_cons_self _ _) (hciphertexts ▸ fun _ => id)⟩
  signed zkProofId handles signature extraData hmem := by
    rw [hsigned] at hmem
    exact (h.signed _ _ _ _ hmem).mono (List.subset_cons_self _ _) (hciphertexts ▸ fun _ => id)

theorem rowOf_row (past : List (ZkInput L R)) {request : VerifyProofRequest} {row : VerifyProof}
    (h : request.row = some row) :
    RowOf (.event request :: past) row request ∧ row.verified = none := by
  simp only [VerifyProofRequest.row, Option.bind_eq_bind, Option.bind_eq_some_iff,
    Option.pure_def, Option.some.injEq] at h
  obtain ⟨chainId, hchain, zkProofId, hid, rfl⟩ := h
  exact ⟨⟨List.mem_cons_self, (toI64_eq_some.mp hid).2, (toI64_eq_some.mp hchain).2, rfl, rfl, rfl⟩, rfl⟩

/-- A row that changes is one of a request still, and is marked only if that is justified. -/
theorem ZkInvariant.update (h : ZkInvariant C tenants past s) {db : ZkDatabase}
    (hciphertexts : ∀ k ∈ s.db.ciphertexts.rows.map Worker.Ciphertext.key,
      k ∈ db.ciphertexts.rows.map Worker.Ciphertext.key)
    (hrows : ∀ row ∈ db.verifyProofs.rows, row ∈ s.db.verifyProofs.rows ∨
      (∃ request, RowOf (i :: past) row request) ∧ (row.verified = some true →
        ∃ handles : List Bytes32, row.handles = some (handles.flatMap wordBytes) ∧
          Justified C tenants (i :: past) db row.zkProofId handles)) :
    ZkInvariant C tenants (i :: past) { s with db } where
  rows row hrow := by
    obtain hold | ⟨hrequest, -⟩ := hrows row hrow
    · obtain ⟨request, hrequest⟩ := h.rows row hold
      exact ⟨request, hrequest.mono (List.subset_cons_self _ _) rfl rfl rfl rfl rfl⟩
    · exact hrequest
  marked row hrow hverified := by
    obtain hold | ⟨-, hmarked⟩ := hrows row hrow
    · obtain ⟨handles, hhandles, hjustified⟩ := h.marked row hold hverified
      exact ⟨handles, hhandles, hjustified.mono (List.subset_cons_self _ _) hciphertexts⟩
    · exact hmarked hverified
  signed zkProofId handles signature extraData hmem :=
    (h.signed _ _ _ _ hmem).mono (List.subset_cons_self _ _) hciphertexts

/-- The row of a request that is verified is marked with its verdict, and no other row changes. -/
theorem rows_setVerified (db : ZkDatabase) {row : VerifyProof} (hrow : row ∈ db.verifyProofs.rows)
    {handles : Bytes} {verified : Bool} {row' : VerifyProof}
    (h : row' ∈ (setVerified db row.zkProofId handles verified).verifyProofs.rows) :
    row' ∈ db.verifyProofs.rows ∨
      row' = { row with handles := some handles, verified := some verified } := by
  obtain ⟨old, hold, rfl⟩ := List.mem_map.mp h
  by_cases hid : old.zkProofId = row.zkProofId
  · obtain rfl := db.verifyProofs.eq_of_key_eq hold hrow hid
    right
    simp
  · left
    simpa [hid] using hold

theorem ZkInvariant.verify (h : ZkInvariant C tenants past s) {T : ProofLibrary L R}
    {row : VerifyProof} {tenant : Tenant} {db : ZkDatabase} (hrow : row ∈ s.db.verifyProofs.rows)
    (htenant : tenants row.chainId = some tenant)
    (hexecute : executeVerifyProofRoutine C.keccak256 tenant T row s.db = some db) :
    ZkInvariant C tenants (.verify row.zkProofId T :: past) { s with db } := by
  obtain ⟨request, hrequest⟩ := h.rows row hrow
  have hrequest' : RowOf (.verify row.zkProofId T :: past) row request :=
    hrequest.mono (List.subset_cons_self _ _) rfl rfl rfl rfl rfl
  unfold executeVerifyProofRoutine at hexecute
  split at hexecute
  · next cts blobHash hverify =>
    obtain rfl := Option.some.inj hexecute
    apply h.update
    · intro k hk
      exact Table.mem_keys_insertAll.mpr (.inl hk)
    · intro row' hrow'
      obtain hold | rfl := rows_setVerified { s.db with ciphertexts := _ } hrow hrow'
      · exact .inl hold
      · have hinserted : ∀ ct ∈ cts, (ct.row tenant).key ∈ (s.db.ciphertexts.insertAll
            (cts.map (Ciphertext.row tenant))).rows.map Worker.Ciphertext.key := fun ct hct =>
          Table.mem_keys_insertAll.mpr (.inr (List.mem_map_of_mem (List.mem_map_of_mem hct)))
        obtain ⟨handles, hhandles, hjustified⟩ := justified_of_verifyProof
          (setVerified { s.db with ciphertexts := _ } row.zkProofId _ true) hrequest' htenant
          List.mem_cons_self hverify hinserted
        refine .inr ⟨⟨request, hrequest'.mono (List.Subset.refl _) rfl rfl rfl rfl rfl⟩, fun _ => ?_⟩
        exact ⟨handles, congrArg some hhandles, hjustified⟩
  · cases hexecute
  · obtain rfl := Option.some.inj hexecute
    apply h.update
    · exact fun _ => id
    · intro row' hrow'
      obtain hold | rfl := rows_setVerified _ hrow hrow'
      · exact .inl hold
      · refine .inr ⟨⟨request, hrequest'.mono (List.Subset.refl _) rfl rfl rfl rfl rfl⟩, fun htrue => ?_⟩
        simp at htrue

/-- The words of a marked row are those of its bytes. -/
theorem prepareResponse_send {row : VerifyProof} {words handles : List Bytes32} {zkProofId : Int64}
    {signature extraData : Bytes} (hwords : row.handles = some (words.flatMap wordBytes))
    (h : prepareResponse C row =
      .send (.verifyProofResponse zkProofId handles signature extraData)) :
    row.verified = some true ∧ zkProofId = row.zkProofId ∧ handles = words := by
  unfold prepareResponse at h
  split at h
  · next hverified =>
    rw [hwords] at h
    have hlength : (words.flatMap wordBytes).length = words.length * 32 := by
      simp [List.length_flatMap, length_wordBytes]
    simp only [hlength, Nat.mul_mod_left, ne_eq, not_true_eq_false, if_false,
      Nat.mul_div_cancel _ (Nat.succ_pos 31), chunks_flatMap, Prepared.send.injEq,
      TransactionRequest.verifyProofResponse.injEq] at h
    exact ⟨hverified, h.1.symm, h.2.1.symm⟩
  · simp at h
  · simp at h

theorem ZkInvariant.prepare (h : ZkInvariant C tenants past s) {row : VerifyProof}
    {request : TransactionRequest} (hrow : row ∈ s.db.verifyProofs.rows)
    (hprepare : prepareResponse C row = .send request) :
    ZkInvariant C tenants (i :: past) { s with signed := request :: s.signed } := by
  have hkept : ZkInvariant C tenants (i :: past) { s with db := s.db } :=
    h.update (fun _ => id) fun row hrow => .inl hrow
  refine { hkept with signed := fun zkProofId handles signature extraData hmem => ?_ }
  obtain rfl | hold := List.mem_cons.mp hmem
  · have hverified : row.verified = some true := by
      unfold prepareResponse at hprepare
      split at hprepare <;> simp_all
    obtain ⟨words, hwords, hjustified⟩ := hkept.marked row hrow hverified
    obtain ⟨-, rfl, rfl⟩ := prepareResponse_send hwords hprepare
    exact hjustified
  · exact hkept.signed _ _ _ _ hold

theorem ZkInvariant.step (h : ZkInvariant C tenants past s)
    (hstep : ZkState.step C tenants s i = some s') : ZkInvariant C tenants (i :: past) s' := by
  cases i with
  | event request =>
    simp only [ZkState.step, verifyProofRequest, Option.map_map, Option.map_eq_some_iff] at hstep
    obtain ⟨row, hrow, rfl⟩ := hstep
    obtain ⟨hrequest, hverified⟩ := rowOf_row past hrow
    apply h.update
    · exact fun _ => id
    · intro row' hrow'
      obtain hold | ⟨-, rfl⟩ := Table.mem_insert.mp hrow'
      · exact .inl hold
      · refine .inr ⟨⟨request, hrequest⟩, fun htrue => ?_⟩
        rw [hverified] at htrue
        cases htrue
  | verify requestId keys =>
    simp only [ZkState.step, Option.bind_eq_bind, Option.bind_eq_some_iff, Option.pure_def,
      Option.some.injEq, Option.guard_eq_some'] at hstep
    obtain ⟨row, hget, -, -, tenant, htenant, db, hexecute, rfl⟩ := hstep
    obtain ⟨hrow, rfl⟩ := Table.get?_eq_some.mp hget
    exact h.verify hrow htenant hexecute
  | prepare zkProofId =>
    simp only [ZkState.step, Option.bind_eq_bind, Option.bind_eq_some_iff] at hstep
    obtain ⟨row, hget, -, -, hprepared⟩ := hstep
    obtain ⟨hrow, rfl⟩ := Table.get?_eq_some.mp hget
    split at hprepared
    · next request hprepare =>
      obtain rfl := Option.some.inj hprepared
      exact h.prepare hrow hprepare
    · obtain rfl := Option.some.inj hprepared
      refine h.keep (fun row hrow => ?_) rfl rfl
      exact ⟨row, (Table.mem_delete.mp hrow).1, row.retryCount, rfl⟩
    · obtain rfl := Option.some.inj hprepared
      exact h.keep (fun row hrow => ⟨row, hrow, row.retryCount, rfl⟩) rfl rfl
  | sent zkProofId done =>
    obtain rfl := Option.some.inj hstep
    cases done with
    | true =>
      refine h.keep (fun row hrow => ?_) rfl rfl
      exact ⟨row, (Table.mem_delete.mp hrow).1, row.retryCount, rfl⟩
    | false =>
      refine h.keep (fun row hrow => ?_) rfl rfl
      obtain ⟨old, hold, rfl⟩ := List.mem_map.mp hrow
      by_cases hid : old.zkProofId = zkProofId
      · exact ⟨old, hold, old.retryCount + 1, by simp [hid]⟩
      · exact ⟨old, hold, old.retryCount, by simp [hid]⟩
  | removeByRetryCount =>
    obtain rfl := Option.some.inj hstep
    refine h.keep (fun row hrow => ?_) rfl rfl
    exact ⟨row, (Table.mem_delete.mp hrow).1, row.retryCount, rfl⟩

/-- The handles of a request that is marked as verified, and those of every answer that is signed,
are the handles of the ciphertexts of the request, after a check of their proof unless there are
none. -/
theorem verified_requests {past : List (ZkInput L R)} {s : ZkState}
    (h : (zkProofs C tenants).Run (fun _ _ => True) past s) :
    (∀ row ∈ s.db.verifyProofs.rows, row.verified = some true → ∃ handles : List Bytes32,
      row.handles = some (handles.flatMap wordBytes) ∧
        Justified C tenants past s.db row.zkProofId handles) ∧
    ∀ zkProofId handles signature extraData,
      .verifyProofResponse zkProofId handles signature extraData ∈ s.signed →
        Justified C tenants past s.db zkProofId handles := by
  have hinvariant : ZkInvariant C tenants past s := by
    apply h.invariant
    · constructor <;> simp [zkProofs]
    · intro past i s s' _ hs _ hstep
      exact hs.step hstep
  exact ⟨hinvariant.marked, hinvariant.signed⟩

end Justified

/-! ## Samples -/

def sampleSender : SenderConfig where
  gwChainId := 54321
  inputVerificationAddress := 5
  verifyProofRespMaxRetries := 3
  keccak256 bytes := BitVec.ofNat 256 bytes.length
  signHash := wordBytes

def sampleTenants (chainId : Int64) : Option Tenant :=
  if chainId = 12345 then some ⟨1, 0xac1⟩ else none

/-- A list has as many inputs as it has bytes, and its proof is valid or not. -/
def sampleLibrary (valid : Bool) : ProofLibrary ℕ Bytes where
  safeDeserializeConformant rawCt := .ok rawCt.length
  len := id
  verifyAndExpand n _ := if valid then .ok (List.replicate n (.uint8, [])) else .error "invalid"
  addReRandomizationMetadata ct _ := ct
  compress _ := [1]

def sampleRequest (input : Bytes) : VerifyProofRequest where
  zkProofId := 1
  contractChainId := 12345
  contractAddress := 0xc0
  userAddress := 0xa11ce
  ciphertextWithZKProof := input
  extraData := []

def sampleInputs (input : Bytes) (valid : Bool) : List (ZkInput ℕ Bytes) :=
  [.prepare 1, .verify 1 (sampleLibrary valid), .event (sampleRequest input)]

def sampleState (input : Bytes) (valid : Bool) : Option ZkState :=
  (zkProofs sampleSender sampleTenants).replay (fun _ _ => True) (sampleInputs input valid)

/-- The answer to a request with two inputs. -/
def sampleResponse : TransactionRequest :=
  .verifyProofResponse 1 [809042432, 1208925819614629983748608] (wordBytes 66) []

theorem sampleRequest_verified : ∃ s, sampleState [1, 2] true = some s ∧
    sampleResponse ∈ s.signed ∧ Justified sampleSender sampleTenants (sampleInputs [1, 2] true) s.db 1
      [809042432, 1208925819614629983748608] := by
  have hsigned : (sampleState [1, 2] true).map ZkState.signed = some [sampleResponse] := by
    decide +kernel
  obtain ⟨s, hs, hresponse⟩ := Option.map_eq_some_iff.mp hsigned
  have hmem : sampleResponse ∈ s.signed := hresponse ▸ List.mem_cons_self
  exact ⟨s, hs, hmem, (verified_requests (System.run_of_replay hs)).2 1 _ _ _ hmem⟩

/-- A list without inputs is answered although its library accepts no proof. -/
theorem sampleRequest_unproven : ¬ ∀ past s,
    (zkProofs sampleSender sampleTenants (L := ℕ) (R := Bytes)).Run (fun _ _ => True) past s →
    ∀ zkProofId handles signature extraData,
      .verifyProofResponse zkProofId handles signature extraData ∈ s.signed →
      ∃ request T tenant aux theList, .event request ∈ past ∧
        zkProofId.toInt = request.zkProofId ∧ DataOf sampleTenants request tenant aux ∧
        .verify zkProofId T ∈ past ∧
        T.safeDeserializeConformant request.ciphertextWithZKProof = .ok theList ∧
        ProofChecked T theList aux := by
  intro h
  have hsigned : (sampleState [] false).map ZkState.signed =
      some [.verifyProofResponse 1 [] (wordBytes 66) []] := by decide +kernel
  obtain ⟨s, hs, hresponse⟩ := Option.map_eq_some_iff.mp hsigned
  obtain ⟨request, T, tenant, aux, theList, -, -, -, hverify, -, _, expanded, -, hexpanded⟩ :=
    h _ s (System.run_of_replay hs) 1 [] (wordBytes 66) [] (hresponse ▸ List.mem_cons_self)
  have hlibrary : T = sampleLibrary false := by
    simpa [sampleInputs] using hverify
  subst hlibrary
  simp [sampleLibrary] at hexpanded

end Fhevm.ZkProof
