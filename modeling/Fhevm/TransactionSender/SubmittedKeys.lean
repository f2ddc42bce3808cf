import Fhevm.GwListener.KeysTogether
import Fhevm.TransactionSender.AddCiphertext

/-!
# The key ids of submitted ciphertexts

A ciphertext is submitted with the key id that its tenant has at the time. That is the id of the keys
of both ciphertexts as long as the row has the key id that it had when the keys were read, and as
long as no key id is written without a server key: caches, tables and snapshots only pass keys on.

## Main definitions

* `AllKeys` — all keys that workers and tables have meet a condition.
* `Call.UnderItsKeys` — the key id of a call is that of the keys of both ciphertexts.
* `KeyIdsKept` — which steps leave the key id that ciphertexts have been computed under.
* `calls_underItsKeys` — the calls in runs of such steps.
-/

namespace Fhevm.TransactionSender

open Foundation Contract Gateway GwListener

/-! ## Where keys are -/

section AllKeys

variable (P : ServerKey → Prop)

def Ciphertext.AllKeys (row : Ciphertext) : Prop :=
  P row.ciphertext.key ∧ ∀ ct ∈ row.ciphertext128, P ct.key

def CiphertextDigest.AllKeys (row : CiphertextDigest) : Prop :=
  (∀ ct ∈ row.ciphertext, P ct.key) ∧ ∀ ct ∈ row.ciphertext128, P ct.key

def HandleItem.AllKeys (item : HandleItem) : Prop :=
  (∀ ct ∈ item.ct64, P ct.key) ∧ ∀ ct ∈ item.ct128, P ct.key

/-- All keys in the caches, in the hands of workers and next to ciphertexts. -/
structure AllKeys (s : PipelineState) : Prop where
  tenantKeyCache : s.tenantKeyCache.All fun keys => P keys.sks
  fetchedKeys : ∀ keys ∈ s.fetchedKeys, P keys.sks
  keysCache : s.keysCache.All P
  fetchedKeysets : ∀ key ∈ s.fetchedKeysets, P key
  ciphertexts : ∀ row ∈ s.ciphertexts.rows, row.AllKeys P
  ciphertextDigest : ∀ row ∈ s.ciphertextDigest.rows, row.AllKeys P
  tasks : ∀ item ∈ s.tasks, item.AllKeys P
  jobs : ∀ item ∈ s.jobs, item.AllKeys P
  selected : ∀ row ∈ s.selected, row.AllKeys P

variable {P} {D : Deployment} {item : HandleItem} {digests : Table CiphertextDigest.key}

theorem HandleItem.AllKeys.compute (h : item.AllKeys P) {key : ServerKey} (hkey : P key)
    (bytes : Bytes) : (item.compute key bytes).AllKeys P := by
  refine ⟨h.1, fun ct hct => ?_⟩
  obtain rfl := Option.some.inj hct
  exact hkey

theorem CiphertextDigest.allKeys_item (row : CiphertextDigest) {ct : Option Ciphertext}
    (h : ∀ c ∈ ct, c.AllKeys P) : (row.item ct).AllKeys P := by
  constructor
  · intro ct64 hct64
    simp only [item, Option.mem_def, Option.ite_none_right_eq_some, Option.map_eq_some_iff] at hct64
    obtain ⟨-, c, hc, rfl⟩ := hct64
    exact (h c hc).1
  · intro ct128 hct128
    simp only [item, Option.mem_def, Option.ite_none_right_eq_some,
      Option.bind_eq_some_iff] at hct128
    obtain ⟨-, c, hc, hct128⟩ := hct128
    exact (h c hc).2 ct128 hct128

theorem allKeys_enqueueUploadTask (h : ∀ row ∈ digests.rows, row.AllKeys P) :
    ∀ row ∈ (enqueueUploadTask digests item).rows, row.AllKeys P := by
  apply Table.forall_insert h
  constructor <;> simp

theorem allKeys_updateCiphertext128 {ciphertexts : Table Ciphertext.key} (hitem : item.AllKeys P)
    (h : ∀ row ∈ ciphertexts.rows, row.AllKeys P) :
    ∀ row ∈ (updateCiphertext128 ciphertexts item).rows, row.AllKeys P :=
  Table.forall_update h fun _ hrow => ⟨hrow.1, hitem.2⟩

theorem allKeys_commitUpload (hitem : item.AllKeys P) (h : ∀ row ∈ digests.rows, row.AllKeys P)
    (uploaded64 uploaded128 : Bool) :
    ∀ row ∈ (item.commitUpload D uploaded64 uploaded128 digests).rows, row.AllKeys P := by
  have hct64 : ∀ digests : Table CiphertextDigest.key, (∀ row ∈ digests.rows, row.AllKeys P) →
      ∀ ct ∈ item.ct64, ∀ row ∈ (updateCt64Uploaded digests item.handle
        (ct.digest D.keccak256)).rows, row.AllKeys P := by
    intro digests h ct hct
    refine Table.forall_update h fun row hrow => ⟨fun digest hdigest => ?_, hrow.2⟩
    obtain rfl := Option.some.inj hdigest
    exact hitem.1 ct hct
  have hct128 : ∀ digests : Table CiphertextDigest.key, (∀ row ∈ digests.rows, row.AllKeys P) →
      ∀ ct ∈ item.ct128, ∀ row ∈ (updateCt128Uploaded digests item.handle
        (ct.digest D.keccak256)).rows, row.AllKeys P := by
    intro digests h ct hct
    refine Table.forall_update h fun row hrow => ⟨hrow.1, fun digest hdigest => ?_⟩
    obtain rfl := Option.some.inj hdigest
    exact hitem.2 ct hct
  have hrow : ∀ row ∈ (enqueueUploadTask digests item).rows, row.AllKeys P :=
    allKeys_enqueueUploadTask h
  unfold HandleItem.commitUpload
  grind

theorem allKeys_garbageCollect {s : PipelineState} (h : ∀ row ∈ s.ciphertexts.rows, row.AllKeys P)
    (picked : List (ℕ × Bytes × ℤ)) : ∀ row ∈ (s.garbageCollect picked).rows, row.AllKeys P := by
  unfold PipelineState.garbageCollect
  exact Table.forall_update h fun _ hrow => ⟨hrow.1, by simp⟩

theorem allKeys_record (h : ∀ row ∈ digests.rows, row.AllKeys P) (txnEnd : TxnEnd)
    (handle : Bytes) : ∀ row ∈ (txnEnd.record digests handle).rows, row.AllKeys P := by
  cases txnEnd with
  | sent =>
    unfold TxnEnd.record setTxnIsSent
    exact Table.forall_update h fun _ hrow => hrow
  | limitedRetry =>
    unfold TxnEnd.record incrementTxnLimitedRetriesCount
    exact Table.forall_update h fun _ hrow => hrow
  | unlimitedRetry => exact h

/-- Steps only pass keys on, unless they read a row of a tenant. -/
theorem allKeys_step {s s' : PipelineState} {i : PipelineInput} (hs : AllKeys P s)
    (hread : ∀ row ∈ s.tenants.rows, ∀ column, P (s.readKey row column))
    (h : s.step D i = some s') : AllKeys P s' := by
  cases i <;> simp only [PipelineState.step, Option.bind_eq_bind, Option.bind_eq_some_iff,
    Option.pure_def, Option.some.injEq] at h
  case handleEvent d =>
    subst h
    unfold PipelineState.afterEvent
    split
    · exact { hs with }
    · exact hs
  case fetchTenantServerKey worker isTenantId id tenant =>
    obtain ⟨⟨keys, cache⟩, hfetch, rfl⟩ := h
    obtain ⟨hkeys, hcache⟩ := hs.tenantKeyCache.fetch (by
      intro keys hkeys
      simp only [PipelineState.queryTenantKeys, Option.bind_eq_bind, Option.bind_eq_some_iff,
        Option.pure_def, Option.some.injEq] at hkeys
      obtain ⟨row, hrow, -, -, rfl⟩ := hkeys
      exact hread row (Table.get?_eq_some.mp hrow).1 _) hfetch
    exact { hs with
      tenantKeyCache := hcache
      fetchedKeys := List.forall_mem_cons.mpr ⟨hkeys, hs.fetchedKeys⟩ }
  case evictTenantKeys worker isTenantId id =>
    subst h
    exact { hs with tenantKeyCache := hs.tenantKeyCache.evict _ }
  case insertCiphertext keys handle version bytes =>
    obtain ⟨keys, hkeys, rfl⟩ := h
    have hkey := hs.fetchedKeys keys (List.mem_of_getElem? hkeys)
    exact { hs with ciphertexts := Table.forall_insert hs.ciphertexts ⟨hkey, by simp⟩ }
  case fetchKeyset worker tenantApiKey =>
    obtain ⟨⟨key, cache⟩, hfetch, rfl⟩ := h
    obtain ⟨hkey, hcache⟩ := hs.keysCache.fetch (by
      intro key hkey
      simp only [PipelineState.fetchKeys, Option.bind_eq_bind, Option.bind_eq_some_iff,
        Option.pure_def, Option.some.injEq] at hkey
      obtain ⟨_, -, row, hrow, -, -, rfl⟩ := hkey
      exact hread row (Table.get?_eq_some.mp hrow).1 _) hfetch
    exact { hs with
      keysCache := hcache
      fetchedKeysets := List.forall_mem_cons.mpr ⟨hkey, hs.fetchedKeysets⟩ }
  case evictKeyset worker tenantApiKey =>
    subst h
    exact { hs with keysCache := hs.keysCache.evict _ }
  case querySnsTask tenantId key =>
    obtain ⟨row, hrow, rfl⟩ := h
    have hkey := (hs.ciphertexts row (Table.get?_eq_some.mp hrow).1).1
    refine { hs with tasks := List.forall_mem_cons.mpr ⟨⟨fun ct hct => ?_, by simp⟩, hs.tasks⟩ }
    obtain rfl := Option.some.inj hct
    exact hkey
  case computeTask task keyset bytes sent =>
    obtain ⟨item, hitem, key, hkey, -, -, rfl⟩ := h
    have hcompute := (hs.tasks item (List.mem_of_getElem? hitem)).compute
      (hs.fetchedKeysets key (List.mem_of_getElem? hkey)) bytes
    refine { hs with tasks := fun item' hitem' => ?_, jobs := ?_ }
    · obtain hitem' | rfl := List.mem_or_eq_of_mem_set hitem'
      · exact hs.tasks item' hitem'
      · exact hcompute
    · change ∀ item' ∈ (if sent then _ else _), HandleItem.AllKeys P item'
      split
      · exact List.forall_mem_cons.mpr ⟨hcompute, hs.jobs⟩
      · exact hs.jobs
  case commitTask task =>
    obtain ⟨item, hitem, rfl⟩ := h
    have hitem := hs.tasks item (List.mem_of_getElem? hitem)
    exact { hs with
      ciphertexts := allKeys_updateCiphertext128 hitem hs.ciphertexts
      ciphertextDigest := allKeys_enqueueUploadTask hs.ciphertextDigest
      tasks := fun item' hitem' => hs.tasks item' (List.mem_of_mem_eraseIdx hitem') }
  case abortTask task =>
    subst h
    exact { hs with tasks := fun item' hitem' => hs.tasks item' (List.mem_of_mem_eraseIdx hitem') }
  case fetchPendingUpload key =>
    obtain ⟨row, -, -, -, rfl⟩ := h
    exact { hs with }
  case resubmit pending version =>
    obtain ⟨row, -, rfl⟩ := h
    refine { hs with jobs := List.forall_mem_cons.mpr ⟨row.allKeys_item fun ct hct => ?_, hs.jobs⟩ }
    exact hs.ciphertexts ct (Table.get?_eq_some.mp hct).1
  case commitUpload job uploaded64 uploaded128 =>
    obtain ⟨item, hitem, rfl⟩ := h
    have hitem := hs.jobs item (List.mem_of_getElem? hitem)
    exact { hs with
      ciphertextDigest := allKeys_commitUpload hitem hs.ciphertextDigest uploaded64 uploaded128
      jobs := fun item' hitem' => hs.jobs item' (List.mem_of_mem_eraseIdx hitem') }
  case dropJob job =>
    subst h
    exact { hs with jobs := fun item' hitem' => hs.jobs item' (List.mem_of_mem_eraseIdx hitem') }
  case garbageCollect picked =>
    subst h
    exact { hs with ciphertexts := allKeys_garbageCollect hs.ciphertexts picked }
  case selectRow key =>
    obtain ⟨row, hrow, -, -, rfl⟩ := h
    have hkeys := hs.ciphertextDigest row (Table.get?_eq_some.mp hrow).1
    exact { hs with selected := List.forall_mem_cons.mpr ⟨hkeys, hs.selected⟩ }
  case addCiphertextMaterial row =>
    obtain ⟨row, -, call, -, rfl⟩ := h
    exact { hs with selected := fun row' hrow' => hs.selected row' (List.mem_of_mem_eraseIdx hrow') }
  case skipRow row =>
    subst h
    exact { hs with selected := fun row' hrow' => hs.selected row' (List.mem_of_mem_eraseIdx hrow') }
  case endTransaction transaction txnEnd =>
    obtain ⟨handle, -, rfl⟩ := h
    exact { hs with ciphertextDigest := allKeys_record hs.ciphertextDigest txnEnd handle }

end AllKeys

/-! ## Key ids of rows -/

section KeyIds

variable {D : Deployment} {s s' : PipelineState}

/-- The key id of each row is the id of its server key. -/
def IdsMatch (s : PipelineState) : Prop :=
  ∀ row ∈ s.tenants.rows, s.serverKeyIds row.tenantId = row.keyId

/-- Only an event with a server key changes the key id. -/
def BringsServerKey (D : Deployment) (s : PipelineState) (s3 : BucketKeys) :
    KMSGenerationEvent → Prop
  | .activateKey keyId urls digests =>
    (downloadKeys D.keys s3 urls keyId digests).isOk → digests = [] ∨
      (∃ key ∈ digests, key.keyType = .serverKey) ∨
      ∀ row ∈ s.tenants.rows, row.chainId = D.hostChainId → row.keyId = keyIdToDatabaseBytes keyId
  | _ => True

theorem tenantId_eq {tenants : Tenants} {chainId tenant : ℕ} (h : tenantId tenants chainId = .ok tenant) :
    ∃ row ∈ tenants.rows, row.chainId = chainId ∧ row.tenantId = tenant := by
  unfold tenantId at h
  split at h
  · cases h
  · next row hrow =>
    have hmem : row ∈ tenants.rows.filter fun row => row.chainId = chainId := by
      rw [hrow]
      exact List.mem_singleton_self row
    obtain ⟨hmem, hchain⟩ := List.mem_filter.mp hmem
    exact ⟨row, hmem, by simpa using hchain, Except.ok.inj h⟩
  · cases h

/-- What is written to the key ids when keys are activated. -/
theorem keyIds_of_activateKey {d : Delivery} {keyId : ℕ} {urls : List String}
    {digests : List KeyDigest} {tenants : Tenants}
    (h : activateKey D.keys D.hostChainId d keyId urls digests s.tenants = .ok tenants) :
    ∃ tenant, tenantId s.tenants D.hostChainId = .ok tenant ∧
      (downloadKeys D.keys d.s3 urls keyId digests).isOk ∧
      ∀ row' ∈ tenants.rows, ∃ row ∈ s.tenants.rows, row'.tenantId = row.tenantId ∧
        (row.tenantId = tenant → row.chainId = D.hostChainId ∧
          row'.keyId = if digests = [] then row.keyId else keyIdToDatabaseBytes keyId) ∧
        (row.tenantId ≠ tenant → row'.keyId = row.keyId) := by
  simp only [activateKey, bind_eq_ok, require_eq_ok] at h
  obtain ⟨keys, hkeys, tenant, htenant, _, -, hwrites⟩ := h
  refine ⟨tenant, htenant, by rw [hkeys]; rfl, fun row' hrow' => ?_⟩
  obtain ⟨row, hrow, hid, hown, hother⟩ := written_of_mem hwrites hrow'
  refine ⟨row, hrow, hid, fun hrowTenant => ?_, fun hne => by rw [hother fun hyes => hne hyes.1]⟩
  obtain ⟨known, hknown, hchain, hknownId⟩ := tenantId_eq htenant
  obtain rfl := s.tenants.eq_of_key_eq hrow hknown (hrowTenant.trans hknownId.symm)
  refine ⟨hchain, ?_⟩
  obtain ⟨hfrom, hfor⟩ := mem_downloadKeys hkeys
  obtain ⟨rfl, hsame⟩ | ⟨hne, hnew⟩ := (hown ⟨hrowTenant, hchain⟩).keyId
  · have hnil : digests = [] := by
      refine List.eq_nil_iff_forall_not_mem.mpr fun digest hdigest => ?_
      obtain ⟨key, hkey, -⟩ := hfor digest hdigest
      cases hkey
    rw [if_pos hnil, hsame]
  · have hsome : digests ≠ [] := by
      rintro rfl
      refine hne (List.eq_nil_iff_forall_not_mem.mpr fun key hkey => ?_)
      obtain ⟨digest, hdigest, -⟩ := hfrom key hkey
      cases hdigest
    rw [if_neg hsome, hnew]

theorem idsMatch_afterEvent {d : Delivery} (hs : IdsMatch s)
    (hbrings : BringsServerKey D s d.s3 d.event) : IdsMatch (s.afterEvent D d) := by
  unfold PipelineState.afterEvent
  split
  · next tenants hhandle =>
    intro row' hrow'
    change serverKeyIdsAfter D s d row'.tenantId = row'.keyId
    cases hevent : d.event with
    | activateKey keyId urls digests =>
      simp only [handleEvent, hevent] at hhandle
      obtain ⟨tenant, htenant, hdownload, hrows⟩ := keyIds_of_activateKey hhandle
      obtain ⟨row, hrow, hid, hown, hother⟩ := hrows row' hrow'
      simp only [BringsServerKey, hevent] at hbrings
      simp only [serverKeyIdsAfter, hevent, htenant]
      rw [hid]
      by_cases hrowTenant : row.tenantId = tenant
      · obtain ⟨hchain, hkeyId⟩ := hown hrowTenant
        rw [hkeyId]
        obtain rfl | hserver | hkept := hbrings hdownload
        · rw [if_neg (by simp), if_pos rfl, hs row hrow]
        · have hsome : digests ≠ [] := by
            obtain ⟨key, hkey, -⟩ := hserver
            exact List.ne_nil_of_mem hkey
          rw [if_pos hserver, if_neg hsome, hrowTenant, Function.update_self]
        · rw [hrowTenant, ← hkept row hrow hchain, ite_self, ← hs row hrow, hrowTenant]
          split
          · rw [Function.update_self]
          · rfl
      · rw [hother hrowTenant, ← hs row hrow]
        split
        · rw [Function.update_of_ne hrowTenant]
        · rfl
    | _ =>
      have hbalanced : GwListener.Balanced D.keys d := by simp [GwListener.Balanced, hevent]
      obtain ⟨row, hrow, hid, -, -, -, hkeyId⟩ | ⟨keyId, urls, digests, hactivate, -⟩ :=
        row_of_handleEvent hbalanced hhandle hrow'
      · simp only [serverKeyIdsAfter, hevent]
        rw [← hid, hs row hrow, hkeyId]
      · rw [hevent] at hactivate
        cases hactivate
  · exact hs

end KeyIds

/-! ## Calls -/

section Calls

variable {D : Deployment} {s s' : PipelineState} {i : PipelineInput}

/-- The key id of a call is that of the keys of both ciphertexts. -/
def Call.UnderItsKeys (call : Call) : Prop :=
  call.args.keyId = BigEndian.decode call.key64.id ∧
    call.args.keyId = BigEndian.decode call.key128.id

/-- The tenant has the key id that it had when the keys of both ciphertexts were read. -/
def CiphertextDigest.KeyIdKept (row : CiphertextDigest) (tenants : Tenants) : Prop :=
  ∀ tenant ∈ tenants.get? row.tenantId,
    (∀ ct ∈ row.ciphertext, ct.key.columnThen = tenant.keyId) ∧
      ∀ ct ∈ row.ciphertext128, ct.key.columnThen = tenant.keyId

/-- Key ids change with server keys only, and are what they were when a ciphertext is submitted. -/
def KeyIdsKept (D : Deployment) (s : PipelineState) : PipelineInput → Prop
  | .handleEvent d => BringsServerKey D s d.s3 d.event
  | .addCiphertextMaterial i => ∀ row ∈ s.selected[i]?, row.KeyIdKept s.tenants
  | _ => True

instance (D : Deployment) (s : PipelineState) (s3 : BucketKeys) :
    DecidablePred (BringsServerKey D s s3)
  | .activateKey keyId urls digests => inferInstanceAs (Decidable (
      (downloadKeys D.keys s3 urls keyId digests).isOk → digests = [] ∨
        (∃ key ∈ digests, key.keyType = .serverKey) ∨ ∀ row ∈ s.tenants.rows,
          row.chainId = D.hostChainId → row.keyId = keyIdToDatabaseBytes keyId))
  | .prepKeygenRequest .. | .prepKeygenResponse .. | .keygenRequest .. | .keygenResponse ..
  | .crsgenRequest .. | .crsgenResponse .. | .activateCrs .. | .prssInit | .keyReshareSameSet .. =>
    inferInstanceAs (Decidable True)

instance (row : CiphertextDigest) (tenants : Tenants) : Decidable (row.KeyIdKept tenants) :=
  inferInstanceAs (Decidable (∀ tenant ∈ tenants.get? row.tenantId,
    (∀ ct ∈ row.ciphertext, ct.key.columnThen = tenant.keyId) ∧
      ∀ ct ∈ row.ciphertext128, ct.key.columnThen = tenant.keyId))

instance (D : Deployment) : DecidableRel (KeyIdsKept D)
  | s, .handleEvent d => inferInstanceAs (Decidable (BringsServerKey D s d.s3 d.event))
  | s, .addCiphertextMaterial i =>
    inferInstanceAs (Decidable (∀ row ∈ s.selected[i]?, row.KeyIdKept s.tenants))
  | _, .fetchTenantServerKey .. | _, .evictTenantKeys .. | _, .insertCiphertext ..
  | _, .fetchKeyset .. | _, .evictKeyset .. | _, .querySnsTask .. | _, .computeTask ..
  | _, .commitTask _ | _, .abortTask _ | _, .fetchPendingUpload _ | _, .resubmit ..
  | _, .commitUpload .. | _, .dropJob _ | _, .garbageCollect _ | _, .selectRow _ | _, .skipRow _
  | _, .endTransaction .. => inferInstanceAs (Decidable True)

/-- The ids of keys are those that stood next to them. -/
structure KeysMatch (s : PipelineState) : Prop where
  rows : IdsMatch s
  keys : AllKeys (fun key => key.id = key.columnThen) s
  calls : ∀ call ∈ s.calls, call.UnderItsKeys

theorem underItsKeys_call {row : CiphertextDigest} {tenants : Tenants} {call : Call}
    (hrow : row.AllKeys fun key => key.id = key.columnThen) (hkept : row.KeyIdKept tenants)
    (h : row.call tenants = some call) : call.UnderItsKeys := by
  simp only [CiphertextDigest.call, queryTenantInfo, Option.bind_eq_bind, Option.bind_eq_some_iff,
    Option.pure_def, Option.some.injEq] at h
  obtain ⟨_, ⟨tenant, htenant, -, -, rfl⟩, ct64, hct64, ct128, hct128, -, -, rfl⟩ := h
  obtain ⟨hkept64, hkept128⟩ := hkept tenant htenant
  constructor
  · rw [hrow.1 ct64 hct64, hkept64 ct64 hct64]
  · rw [hrow.2 ct128 hct128, hkept128 ct128 hct128]

/-- Only the listener writes to tenants, and only the transaction sender makes calls. -/
theorem step_cases (h : s.step D i = some s') :
    (s'.tenants = s.tenants ∧ s'.serverKeyIds = s.serverKeyIds ∧ s'.calls = s.calls) ∨
      (∃ d, i = .handleEvent d ∧ s' = s.afterEvent D d) ∨
        ∃ j row call, i = .addCiphertextMaterial j ∧ s.selected[j]? = some row ∧
          row.call s.tenants = some call ∧ s'.tenants = s.tenants ∧
            s'.serverKeyIds = s.serverKeyIds ∧ s'.calls = call :: s.calls := by
  cases i <;> simp only [PipelineState.step, Option.bind_eq_bind, Option.bind_eq_some_iff,
    Option.pure_def, Option.some.injEq] at h
  case handleEvent d => exact .inr (.inl ⟨d, rfl, h.symm⟩)
  case addCiphertextMaterial j =>
    obtain ⟨row, hrow, call, hcall, rfl⟩ := h
    exact .inr (.inr ⟨j, row, call, rfl, hrow, hcall, rfl, rfl, rfl⟩)
  all_goals
    left
    grind

theorem KeysMatch.step (hs : KeysMatch s) (hkept : KeyIdsKept D s i) (h : s.step D i = some s') :
    KeysMatch s' := by
  have hkeys : AllKeys (fun key => key.id = key.columnThen) s' :=
    allKeys_step hs.keys (fun row hrow _ => hs.rows row hrow) h
  obtain ⟨htenants, hids, hcalls⟩ | ⟨d, rfl, rfl⟩ |
    ⟨j, row, call, rfl, hrow, hcall, htenants, hids, hcalls⟩ := step_cases h
  · refine ⟨?_, hkeys, hcalls ▸ hs.calls⟩
    rw [IdsMatch, htenants, hids]
    exact hs.rows
  · refine ⟨idsMatch_afterEvent hs.rows hkept, hkeys, ?_⟩
    have hcalls : (s.afterEvent D d).calls = s.calls := by
      unfold PipelineState.afterEvent
      split <;> rfl
    rw [hcalls]
    exact hs.calls
  · refine ⟨?_, hkeys, ?_⟩
    · rw [IdsMatch, htenants, hids]
      exact hs.rows
    · rw [hcalls]
      have hrowKeys := hs.keys.selected row (List.mem_of_getElem? hrow)
      exact List.forall_mem_cons.mpr ⟨underItsKeys_call hrowKeys (hkept row hrow) hcall, hs.calls⟩

/-- As long as key ids are kept, each call has the key id of the keys of its ciphertexts. -/
theorem calls_underItsKeys {past : List PipelineInput}
    (h : (pipeline D).Run (KeyIdsKept D) past s) : ∀ call ∈ s.calls, call.UnderItsKeys := by
  have hmatch : KeysMatch s := by
    apply h.invariant
    · constructor
      · intro row hrow
        have hget : D.setup.get? row.tenantId = some row := Table.get?_eq_some.mpr ⟨hrow, rfl⟩
        simp only [pipeline, hget, Option.map_some, Option.getD_some]
      · constructor
        case tenantKeyCache | keysCache => exact Cache.all_empty
        all_goals simp [pipeline]
      · simp [pipeline]
    · intro past i s s' _ hs hkept hstep
      exact hs.step hkept hstep
  exact hmatch.calls

end Calls

/-! ## Samples -/

/-- The tenant is set up with its public parameters only. -/
def sampleTenants : Tenants := ⟨[{ tenantId := 1, chainId := 12345, publicParams := [5] }], by decide⟩

def sampleDeployment : Deployment where
  keys := sampleLibrary
  keccak256 bytes := BitVec.ofNat 256 (BigEndian.decode bytes)
  isServerKey bytes := bytes ≠ []
  isPublicKey bytes := bytes ≠ []
  isPublicParams bytes := bytes ≠ []
  isSnsKey bytes := bytes ≠ []
  hostChainId := 12345
  tenantOf _ := some 1
  setup := sampleTenants
  addCiphertextsMaxRetries := 3

/-- A server key and a public key are activated. -/
def sampleRotation (keyId : ℕ) (key : UInt8) : Delivery where
  event := .activateKey keyId ["a"] [sampleDigest .serverKey [key], sampleDigest .publicKey [key]]
  s3 _ _ := some [key]

def sampleHandle : Bytes := List.replicate 32 7

/-- A ciphertext is computed, squashed and uploaded after the activation of a key, and submitted
after some other event. -/
def sampleSubmission (between : List PipelineInput) : List PipelineInput :=
  [.addCiphertextMaterial 0, .selectRow (1, sampleHandle)] ++ between ++
    [.commitUpload 0 true true, .commitTask 0, .computeTask 0 0 [1, 2, 3] true,
      .querySnsTask 1 (1, sampleHandle, 0), .fetchKeyset 0 "key", .insertCiphertext 0 sampleHandle 0 [9],
      .fetchTenantServerKey 0 true 1 1, .handleEvent (sampleRotation 7 1)]

/-- The ids in the calls: that of the call, and those of the keys. -/
def PipelineState.callIds (s : PipelineState) : List (ℕ × ℕ × ℕ) :=
  s.calls.map fun call =>
    (call.args.keyId, BigEndian.decode call.key64.id, BigEndian.decode call.key128.id)

theorem sampleSubmission_underItsKeys : ∃ s, (pipeline sampleDeployment).Run
    (KeyIdsKept sampleDeployment) (sampleSubmission []) s ∧ s.callIds = [(7, 7, 7)] ∧
      ∀ call ∈ s.calls, call.UnderItsKeys := by
  have hids : ((pipeline sampleDeployment).replay (KeyIdsKept sampleDeployment)
      (sampleSubmission [])).map PipelineState.callIds = some [(7, 7, 7)] := by decide +kernel
  obtain ⟨s, hs, hid⟩ := Option.map_eq_some_iff.mp hids
  have hrun := System.run_of_replay hs
  exact ⟨s, hrun, hid, calls_underItsKeys hrun⟩

/-- With a rotation in between, ciphertexts under one key are submitted as those under another. -/
theorem sampleSubmission_rotated : ¬ ∀ D past s, (pipeline D).Run (fun _ _ => True) past s →
    ∀ call ∈ s.calls, call.UnderItsKeys := by
  intro h
  have hids : ((pipeline sampleDeployment).replay (fun _ _ => True)
      (sampleSubmission [.handleEvent (sampleRotation 8 2)])).map PipelineState.callIds =
        some [(8, 7, 7)] := by decide +kernel
  obtain ⟨s, hs, hid⟩ := Option.map_eq_some_iff.mp hids
  obtain ⟨call, hcall, hids⟩ := List.map_eq_singleton_iff.mp hid
  have hunder := (h _ _ s (System.run_of_replay hs) call (hcall ▸ List.mem_singleton_self _)).1
  simp only [Prod.mk.injEq] at hids
  rw [hids.1, hids.2.1] at hunder
  cases hunder

end Fhevm.TransactionSender
