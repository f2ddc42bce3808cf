import Fhevm.GwListener.KeysTogether

/-!
# Keys with the digests that were agreed on

A key is taken from the first bucket that has an object for it, and the digest is checked only
then. What another bucket has does not count any more.

## Main definitions

* `FirstServed` — what the first bucket with an object serves.
* `AgreedFirst` — the first buckets serve what the event has agreed on.
* `StoresAgreed` — what an event may write to a row.
* `handleEvent_ok_iff` — when an event is stored, and what is stored then.
-/

namespace Fhevm.GwListener

open Foundation Gateway

/-! ## Downloads -/

/-- The first bucket with an object, in the order that starts at an offset, serves these bytes. -/
def FirstServed (s3 : BucketKeys) (urls : List String) (suffix : String) (offset : ℕ)
    (bytes : Bytes) : Prop :=
  ∃ i < urls.length, s3 (urls.getD ((i + offset) % urls.length) "") suffix = some bytes ∧
    ∀ j < i, s3 (urls.getD ((j + offset) % urls.length) "") suffix = none

theorem findSome?_range {α : Type*} {f : ℕ → Option α} {n : ℕ} {a : α} :
    (List.range n).findSome? f = some a ↔ ∃ i < n, f i = some a ∧ ∀ j < i, f j = none := by
  induction n with
  | zero => simp
  | succ n ih =>
    rw [List.range_succ, List.findSome?_append, Option.or_eq_some_iff, ih,
      List.findSome?_eq_none_iff]
    simp only [List.mem_range, List.findSome?_singleton]
    constructor
    · rintro (⟨i, hi, ha, hnone⟩ | ⟨hnone, ha⟩)
      · exact ⟨i, by omega, ha, hnone⟩
      · exact ⟨n, by omega, ha, hnone⟩
    · rintro ⟨i, hi, ha, hnone⟩
      rcases Nat.lt_succ_iff_lt_or_eq.mp hi with hlt | rfl
      · exact .inl ⟨i, hlt, ha, hnone⟩
      · exact .inr ⟨hnone, ha⟩

theorem downloadKeyFromS3_eq_some {s3 : BucketKeys} {urls : List String} {suffix : String}
    {offset : ℕ} {bytes : Bytes} :
    downloadKeyFromS3 s3 urls suffix offset = some bytes ↔
      FirstServed s3 urls suffix offset bytes := findSome?_range

variable (K : KeyLibrary) (hostChainId : ℕ)

def keyPath (keyId : ℕ) (keyType : KeyType) : String :=
  toKeyPrefix keyType ++ "/" ++ keyIdToAwsKey keyId

def crsPath (crsId : ℕ) : String := "/CRS/" ++ keyIdToAwsKey crsId

variable {K} in
/-- A key is downloaded when the first bucket serves it with its digest. -/
theorem downloadKey_eq_ok {s3 : BucketKeys} {urls : List String} {keyId i : ℕ} {digest : KeyDigest}
    {key : KeyType × Bytes} :
    downloadKey K s3 urls keyId (digest, i) = .ok key ↔
      key.1 = digest.keyType ∧ FirstServed s3 urls (keyPath keyId digest.keyType) i key.2 ∧
        K.digestKey key.2 = digest.digest := by
  obtain ⟨keyType, bytes⟩ := key
  rw [← downloadKeyFromS3_eq_some]
  unfold downloadKey keyPath
  cases downloadKeyFromS3 s3 urls (toKeyPrefix digest.keyType ++ "/" ++ keyIdToAwsKey keyId) i with
  | none => simp
  | some served =>
    simp only [bind_eq_ok, require_eq_ok, pure_eq_ok, Prod.mk.injEq, Option.some.injEq]
    constructor
    · rintro ⟨-, hdigest, rfl, rfl⟩
      exact ⟨rfl, rfl, hdigest⟩
    · rintro ⟨rfl, rfl, hdigest⟩
      exact ⟨(), hdigest, rfl, rfl⟩

/-! ## Events -/

/-- The tenant of the chain is there, and the transaction does not fail. -/
def TenantReady (d : Delivery) (tenants : Tenants) : Prop :=
  d.databaseFails = false ∧ ∃ id, tenantId tenants hostChainId = .ok id

/-- For each key, the first bucket with an object serves bytes with the digest that was agreed on.
Server keys can be read. -/
def AgreedFirst (d : Delivery) (tenants : Tenants) : Prop :=
  match d.event with
  | .activateKey keyId urls digests => TenantReady hostChainId d tenants ∧
      ∀ i digest, digests[i]? = some digest →
        ∃ bytes, FirstServed d.s3 urls (keyPath keyId digest.keyType) i bytes ∧
          K.digestKey bytes = digest.digest ∧
          (digest.keyType = .serverKey → (K.extractServerKeyWithoutNs bytes).isSome)
  | .activateCrs crsId urls digest => TenantReady hostChainId d tenants ∧
      ∃ bytes, FirstServed d.s3 urls (crsPath crsId) 0 bytes ∧ K.digestCrs bytes = digest
  | _ => True

/-- The keys of a row after an event: those with the digests of the event, or the old ones if the
event has none of the type. -/
structure KeysAgreed (digests : List KeyDigest) (row row' : Tenant) : Prop where
  publicKey : ((∀ digest ∈ digests, digest.keyType ≠ .publicKey) ∧ row'.pksKey = row.pksKey) ∨
    ∃ digest ∈ digests, digest.keyType = .publicKey ∧ K.digestKey row'.pksKey = digest.digest
  serverKey : ((∀ digest ∈ digests, digest.keyType ≠ .serverKey) ∧ row'.snsPk = row.snsPk ∧
      row'.sksKey = row.sksKey) ∨
    ∃ digest ∈ digests, digest.keyType = .serverKey ∧ K.digestKey row'.snsPk = digest.digest ∧
      K.extractServerKeyWithoutNs row'.snsPk = some row'.sksKey

/-- What an event writes to the row of the tenant: nothing but what was agreed on. -/
def StoresAgreed (event : KMSGenerationEvent) (row row' : Tenant) : Prop :=
  match event with
  | .activateKey _ _ digests => KeysAgreed K digests row row' ∧ row'.publicParams = row.publicParams
  | .activateCrs _ _ digest => K.digestCrs row'.publicParams = digest ∧ SameKeys row' row
  | _ => row' = row

section Events

variable {K hostChainId} {tenants tenants' : Tenants} {d : Delivery}

/-- The only row of a chain is that of the tenant. -/
theorem tenantId_of_mem {id : ℕ} (h : tenantId tenants hostChainId = .ok id) {row : Tenant}
    (hrow : row ∈ tenants.rows) (hchain : row.chainId = hostChainId) : row.tenantId = id := by
  have hmem : row ∈ tenants.rows.filter fun row => row.chainId = hostChainId :=
    List.mem_filter.mpr ⟨hrow, by simpa using hchain⟩
  unfold tenantId at h
  split at h
  · cases h
  · next only hrows =>
    obtain rfl := Except.ok.inj h
    rw [hrows, List.mem_singleton] at hmem
    rw [hmem]
  · cases h

theorem exists_row_of_tenantId {id : ℕ} (h : tenantId tenants hostChainId = .ok id) :
    ∃ row ∈ tenants.rows, row.tenantId = id ∧ row.chainId = hostChainId := by
  unfold tenantId at h
  split at h
  · cases h
  · next only hrows =>
    obtain rfl := Except.ok.inj h
    obtain ⟨hmem, hchain⟩ := List.mem_filter.mp (hrows ▸ List.mem_singleton_self only)
    exact ⟨only, hmem, rfl, by simpa using hchain⟩
  · cases h

/-- All keys are written when the server keys among them can be read. -/
theorem exists_writes_iff {id chainId : ℕ} {keyId : Bytes} {keys : List (KeyType × Bytes)}
    (hrow : ∃ row ∈ tenants.rows, row.tenantId = id ∧ row.chainId = chainId) :
    (∃ tenants', keys.foldlM (updateTenantKey K id chainId keyId) tenants = .ok tenants') ↔
      ∀ key ∈ keys, ∃ reduced, reducedKeyBytes K key = .ok reduced := by
  induction keys generalizing tenants with
  | nil => simp [pure_eq_ok]
  | cons key keys ih =>
    have hkept : ∀ reduced : Bytes, ∃ row ∈ (tenants.update
        (fun row => row.tenantId = id ∧ row.chainId = chainId)
        (fun row => row.setKey keyId key reduced) fun row => row.tenantId_setKey ..).rows,
        row.tenantId = id ∧ row.chainId = chainId := by
      intro reduced
      obtain ⟨row, hmem, hmatch⟩ := hrow
      refine ⟨row.setKey keyId key reduced, List.mem_map.mpr ⟨row, hmem, ?_⟩, ?_⟩
      · rw [if_pos (by simpa using hmatch)]
      · rw [row.tenantId_setKey, row.chainId_setKey]
        exact hmatch
    simp only [List.foldlM_cons, updateTenantKey, bind_eq_ok, require_eq_ok, pure_eq_ok,
      List.forall_mem_cons]
    constructor
    · rintro ⟨tenants', _, ⟨reduced, hreduced, _, -, rfl⟩, hkeys⟩
      exact ⟨⟨reduced, hreduced⟩, (ih (hkept reduced)).mp ⟨tenants', hkeys⟩⟩
    · rintro ⟨⟨reduced, hreduced⟩, hkeys⟩
      obtain ⟨tenants', hwrites⟩ := (ih (hkept reduced)).mpr hkeys
      exact ⟨tenants', _, ⟨reduced, hreduced, (), hrow, rfl⟩, hwrites⟩

/-- Keys are not written to the column of the CRS, and no row comes or goes. -/
theorem frame_of_writes {id chainId : ℕ} {keyId : Bytes} {keys : List (KeyType × Bytes)}
    (h : keys.foldlM (updateTenantKey K id chainId keyId) tenants = .ok tenants') :
    tenants'.rows.map (fun row => (row.tenantId, row.publicParams)) =
      tenants.rows.map fun row => (row.tenantId, row.publicParams) := by
  refine foldlM_invariant (P := fun tenants' : Tenants =>
    tenants'.rows.map (fun row => (row.tenantId, row.publicParams)) =
      tenants.rows.map fun row => (row.tenantId, row.publicParams)) ?_ rfl h
  intro written key next hwritten hstep
  simp only [updateTenantKey, bind_eq_ok, require_eq_ok, pure_eq_ok] at hstep
  obtain ⟨reduced, -, _, -, rfl⟩ := hstep
  rw [← hwritten, Table.rows_update, List.map_map]
  refine List.map_congr_left fun row _ => ?_
  simp only [Function.comp_apply]
  split
  · unfold Tenant.setKey
    cases key.1 <;> rfl
  · rfl

/-- All keys are downloaded when the first bucket serves each with its digest. -/
theorem exists_downloadKeys_iff {s3 : BucketKeys} {urls : List String} {keyId : ℕ}
    {digests : List KeyDigest} :
    (∃ keys, downloadKeys K s3 urls keyId digests = .ok keys ∧
        ∀ key ∈ keys, ∃ reduced, reducedKeyBytes K key = .ok reduced) ↔
      ∀ i digest, digests[i]? = some digest →
        ∃ bytes, FirstServed s3 urls (keyPath keyId digest.keyType) i bytes ∧
          K.digestKey bytes = digest.digest ∧
          (digest.keyType = .serverKey → (K.extractServerKeyWithoutNs bytes).isSome) := by
  have hreduced : ∀ key, (∃ reduced, reducedKeyBytes K key = .ok reduced) ↔
      (key.1 = .serverKey → (K.extractServerKeyWithoutNs key.2).isSome) := by
    rintro ⟨_ | _, bytes⟩
    · cases hk : K.extractServerKeyWithoutNs bytes <;> simp [reducedKeyBytes, hk]
    · simp [reducedKeyBytes]
  constructor
  · rintro ⟨keys, hkeys, hread⟩ i digest hi
    obtain ⟨key, hkey, hget⟩ :=
      mapM_of_mem hkeys (List.mem_zipIdx_iff_getElem?.mpr hi : (digest, i) ∈ _)
    obtain ⟨htype, hserved, hdigest⟩ := downloadKey_eq_ok.mp hget
    exact ⟨key.2, hserved, hdigest, fun hserver => (hreduced key).mp (hread key hkey)
      (htype.trans hserver)⟩
  · intro h
    have hdownload : ∀ d ∈ digests.zipIdx, ∃ key, downloadKey K s3 urls keyId d = .ok key := by
      rintro ⟨digest, i⟩ hd
      obtain ⟨bytes, hserved, hdigest, -⟩ := h i digest (List.mem_zipIdx_iff_getElem?.mp hd)
      exact ⟨(digest.keyType, bytes), downloadKey_eq_ok.mpr ⟨rfl, hserved, hdigest⟩⟩
    obtain ⟨keys, hkeys, -⟩ := exists_mapM_ok hdownload
    refine ⟨keys, hkeys, fun key hkey => (hreduced key).mpr fun hserver => ?_⟩
    obtain ⟨⟨digest, i⟩, hd, hget⟩ := exists_of_mem_mapM hkeys hkey
    obtain ⟨htype, hserved, -⟩ := downloadKey_eq_ok.mp hget
    obtain ⟨bytes, hserved', -, hread⟩ := h i digest (List.mem_zipIdx_iff_getElem?.mp hd)
    -- There is only one object that the first bucket can serve.
    rw [← downloadKeyFromS3_eq_some] at hserved hserved'
    obtain rfl := Option.some.inj (hserved.symm.trans hserved')
    exact hread (htype.symm.trans hserver)

/-- The keys that are written are those that the digests are of. -/
theorem Written.keysAgreed {s3 : BucketKeys} {urls : List String} {keyId : ℕ} {id : Bytes}
    {digests : List KeyDigest} {keys : List (KeyType × Bytes)} {row row' : Tenant}
    (h : Written K id keys row row') (hkeys : downloadKeys K s3 urls keyId digests = .ok keys) :
    KeysAgreed K digests row row' := by
  obtain ⟨hdigest, hkey⟩ := mem_downloadKeys hkeys
  have hnone : ∀ type, (∀ key ∈ keys, key.1 ≠ type) →
      ∀ digest ∈ digests, digest.keyType ≠ type := by
    intro type hno digest hmem htype
    obtain ⟨key, hin, hsame⟩ := hkey digest hmem
    exact hno key hin (hsame.trans htype)
  constructor
  · obtain ⟨hno, hsame⟩ | hmem := h.publicKey
    · exact .inl ⟨hnone _ hno, hsame⟩
    · exact .inr (hdigest _ hmem)
  · obtain ⟨hno, hsame⟩ | ⟨hmem, hextract⟩ := h.serverKey
    · exact .inl ⟨hnone _ hno, hsame⟩
    · obtain ⟨digest, hin, htype, hbytes⟩ := hdigest _ hmem
      exact .inr ⟨digest, hin, htype, hbytes, hextract⟩

theorem exists_activateKey_iff {keyId : ℕ} {urls : List String} {digests : List KeyDigest} :
    (∃ tenants', activateKey K hostChainId d keyId urls digests tenants = .ok tenants') ↔
      TenantReady hostChainId d tenants ∧
        ∃ keys, downloadKeys K d.s3 urls keyId digests = .ok keys ∧
          ∀ key ∈ keys, ∃ reduced, reducedKeyBytes K key = .ok reduced := by
  simp only [activateKey, bind_eq_ok, require_eq_ok]
  constructor
  · rintro ⟨tenants', keys, hkeys, id, hid, _, hworks, hwrites⟩
    obtain ⟨row, hrow, hmatch⟩ := exists_row_of_tenantId hid
    exact ⟨⟨hworks, id, hid⟩, keys, hkeys,
      (exists_writes_iff ⟨row, hrow, hmatch⟩).mp ⟨tenants', hwrites⟩⟩
  · rintro ⟨⟨hworks, id, hid⟩, keys, hkeys, hread⟩
    obtain ⟨row, hrow, hmatch⟩ := exists_row_of_tenantId hid
    obtain ⟨tenants', hwrites⟩ := (exists_writes_iff ⟨row, hrow, hmatch⟩).mpr hread
    exact ⟨tenants', keys, hkeys, id, hid, (), hworks, hwrites⟩

theorem activateCrs_eq_ok {crsId : ℕ} {urls : List String} {digest : Bytes} :
    activateCrs K hostChainId d crsId urls digest tenants = .ok tenants' ↔
      ∃ bytes, FirstServed d.s3 urls (crsPath crsId) 0 bytes ∧ K.digestCrs bytes = digest ∧
        d.databaseFails = false ∧ ∃ id, tenantId tenants hostChainId = .ok id ∧
          tenants' = tenants.update (fun row => row.tenantId = id ∧ row.chainId = hostChainId)
            (fun row => { row with publicParams := bytes }) fun _ => rfl := by
  simp only [← downloadKeyFromS3_eq_some]
  unfold activateCrs crsPath
  cases downloadKeyFromS3 d.s3 urls ("/CRS/" ++ keyIdToAwsKey crsId) 0 with
  | none => simp
  | some served =>
    simp only [updateTenantCrs, bind_eq_ok, require_eq_ok, pure_eq_ok, Option.some.injEq]
    constructor
    · rintro ⟨_, hdigest, id, hid, _, hworks, _, -, rfl⟩
      exact ⟨served, rfl, hdigest, hworks, id, hid, rfl⟩
    · rintro ⟨_, rfl, hdigest, hworks, id, hid, rfl⟩
      exact ⟨(), hdigest, id, hid, (), hworks, (), exists_row_of_tenantId hid, rfl⟩

theorem tenantIds_of_handleEvent (h : handleEvent K hostChainId d tenants = .ok tenants') :
    tenants'.rows.map Tenant.tenantId = tenants.rows.map Tenant.tenantId := by
  unfold handleEvent at h
  split at h
  · simp only [activateKey, bind_eq_ok, require_eq_ok] at h
    obtain ⟨keys, -, id, -, _, -, hwrites⟩ := h
    simpa [Function.comp_def] using congrArg (List.map Prod.fst) (frame_of_writes hwrites)
  · obtain ⟨bytes, -, -, -, id, -, rfl⟩ := activateCrs_eq_ok.mp h
    rw [Table.rows_update, List.map_map]
    refine List.map_congr_left fun row _ => ?_
    simp only [Function.comp_apply]
    split <;> rfl
  · rw [Except.ok.inj h]

theorem exists_handleEvent_iff :
    (∃ tenants', handleEvent K hostChainId d tenants = .ok tenants') ↔
      AgreedFirst K hostChainId d tenants := by
  unfold handleEvent AgreedFirst
  cases d.event with
  | activateKey keyId urls digests =>
    exact exists_activateKey_iff.trans (and_congr_right fun _ => exists_downloadKeys_iff)
  | activateCrs crsId urls digest =>
    simp only [activateCrs_eq_ok]
    constructor
    · rintro ⟨_, bytes, hserved, hdigest, hworks, id, hid, -⟩
      exact ⟨⟨hworks, id, hid⟩, bytes, hserved, hdigest⟩
    · rintro ⟨⟨hworks, id, hid⟩, bytes, hserved, hdigest⟩
      exact ⟨_, bytes, hserved, hdigest, hworks, id, hid, rfl⟩
  | _ => simp

/-- What an event writes was agreed on, and is written to the row of the tenant. -/
theorem storesAgreed_of_handleEvent (h : handleEvent K hostChainId d tenants = .ok tenants')
    {row' : Tenant} (hrow' : row' ∈ tenants'.rows) :
    ∃ row ∈ tenants.rows, row'.tenantId = row.tenantId ∧
      (row.chainId = hostChainId → StoresAgreed K d.event row row') ∧
      (row.chainId ≠ hostChainId → row' = row) := by
  unfold handleEvent at h
  split at h
  · next keyId urls digests hevent =>
    simp only [activateKey, bind_eq_ok, require_eq_ok] at h
    obtain ⟨keys, hkeys, id, hid, _, -, hwrites⟩ := h
    obtain ⟨row, hrow, htenant, hown, hother⟩ := written_of_mem hwrites hrow'
    have hparams : row'.publicParams = row.publicParams := by
      have hmem : (row'.tenantId, row'.publicParams) ∈
          tenants.rows.map fun row => (row.tenantId, row.publicParams) :=
        frame_of_writes hwrites ▸ List.mem_map_of_mem hrow'
      obtain ⟨old, hold, hsame⟩ := List.mem_map.mp hmem
      obtain ⟨hid', hparams⟩ := Prod.mk.inj hsame
      rw [← hparams, tenants.eq_of_key_eq hold hrow (hid'.trans htenant)]
    simp only [hevent, StoresAgreed]
    refine ⟨row, hrow, htenant, fun hchain => ⟨?_, hparams⟩, fun hchain => hother (by tauto)⟩
    exact (hown ⟨tenantId_of_mem hid hrow hchain, hchain⟩).keysAgreed hkeys
  · next crsId urls digest hevent =>
    obtain ⟨bytes, -, hdigest, -, id, hid, rfl⟩ := activateCrs_eq_ok.mp h
    obtain ⟨row, hrow, rfl⟩ := List.mem_map.mp hrow'
    simp only [hevent, StoresAgreed]
    by_cases hchain : row.chainId = hostChainId
    · rw [if_pos (by simpa using ⟨tenantId_of_mem hid hrow hchain, hchain⟩)]
      exact ⟨row, hrow, rfl, fun _ => ⟨hdigest, rfl, rfl, rfl, rfl⟩, fun hno => absurd hchain hno⟩
    · rw [if_neg (by simp [hchain])]
      exact ⟨row, hrow, rfl, fun hyes => absurd hyes hchain, fun _ => rfl⟩
  · next hkey hcrs =>
    obtain rfl := Except.ok.inj h
    refine ⟨row', hrow', rfl, fun _ => ?_, fun _ => rfl⟩
    cases hevent : d.event with
    | activateKey keyId urls digests => exact absurd hevent (hkey keyId urls digests)
    | activateCrs crsId urls digest => exact absurd hevent (hcrs crsId urls digest)
    | _ => rfl

end Events

/-- An event is stored when the first bucket with an object serves what was agreed on, for each of
its keys, and nothing else is ever stored: neither bytes with other digests, nor rows. -/
theorem handleEvent_ok_iff (d : Delivery) (tenants : Tenants) :
    ((∃ tenants', handleEvent K hostChainId d tenants = .ok tenants') ↔
      AgreedFirst K hostChainId d tenants) ∧
    ∀ tenants', handleEvent K hostChainId d tenants = .ok tenants' →
      tenants'.rows.map Tenant.tenantId = tenants.rows.map Tenant.tenantId ∧
      ∀ row' ∈ tenants'.rows, ∃ row ∈ tenants.rows, row'.tenantId = row.tenantId ∧
        (row.chainId = hostChainId → StoresAgreed K d.event row row') ∧
        (row.chainId ≠ hostChainId → row' = row) :=
  ⟨exists_handleEvent_iff, fun _ h =>
    ⟨tenantIds_of_handleEvent h, fun _ => storesAgreed_of_handleEvent h⟩⟩

/-! ## Samples -/

/-- For each key, one of the buckets serves bytes with the digest that was agreed on. -/
def AgreedSomewhere (d : Delivery) (tenants : Tenants) : Prop :=
  match d.event with
  | .activateKey keyId urls digests => TenantReady hostChainId d tenants ∧
      ∀ digest ∈ digests, ∃ url ∈ urls, ∃ bytes,
        d.s3 url (keyPath keyId digest.keyType) = some bytes ∧ K.digestKey bytes = digest.digest ∧
        (digest.keyType = .serverKey → (K.extractServerKeyWithoutNs bytes).isSome)
  | .activateCrs crsId urls digest => TenantReady hostChainId d tenants ∧
      ∃ url ∈ urls, ∃ bytes, d.s3 url (crsPath crsId) = some bytes ∧ K.digestCrs bytes = digest
  | _ => True

/-- The second bucket has the key, but the first one has something else. -/
theorem sampleActivation_ignored : ¬ ∀ d tenants,
    AgreedSomewhere sampleLibrary 12345 d tenants →
      ∃ tenants', handleEvent sampleLibrary 12345 d tenants = .ok tenants' := by
  intro h
  obtain ⟨tenants', hstored⟩ := h (sampleActivation [sampleDigest .publicKey [2]]) sampleSetup
    ⟨⟨rfl, 1, rfl⟩, by
      rintro digest hdigest
      rw [List.mem_singleton] at hdigest
      subst hdigest
      exact ⟨"b", by decide, [2], rfl, rfl, nofun⟩⟩
  have hmismatch : activateKey sampleLibrary 12345
      (sampleActivation [sampleDigest .publicKey [2]]) 7 ["a", "b"] [sampleDigest .publicKey [2]]
      sampleSetup = .error .digestMismatch := by
    rfl
  exact nomatch hmismatch.symm.trans hstored

end Fhevm.GwListener
