import Fhevm.Foundation.System
import Fhevm.GwListener.TenantKeys

/-!
# The keys of a tenant change together

The keys in the row of a tenant and its key id are all of one event, as long as no event that is
processed has keys of one type only: each key that is written changes the key id.

## Main definitions

* `ComesFrom` — keys and key id are those of an event.
* `Balanced` — an event has keys of both types, or none.
* `keys_together` — the keys change together in runs of such events.
-/

namespace Fhevm.GwListener

open Foundation Contract Gateway

section Keys

variable (K : KeyLibrary) (hostChainId : ℕ)

/-- The public key, the server key in both of its columns and the key id are those of an event. -/
structure ComesFrom (row : Tenant) (keyId : ℕ) (digests : List KeyDigest) : Prop where
  keyId : row.keyId = keyIdToDatabaseBytes keyId
  pksKey : ∃ d ∈ digests, d.keyType = .publicKey ∧ K.digestKey row.pksKey = d.digest
  snsPk : ∃ d ∈ digests, d.keyType = .serverKey ∧ K.digestKey row.snsPk = d.digest
  sksKey : K.extractServerKeyWithoutNs row.snsPk = some row.sksKey

/-- The columns of the keys are the same. -/
def SameKeys (row old : Tenant) : Prop :=
  row.pksKey = old.pksKey ∧ row.sksKey = old.sksKey ∧ row.snsPk = old.snsPk ∧ row.keyId = old.keyId

/-- If the keys of an event can be downloaded, then there are keys of both types, or none. -/
def Balanced (d : Delivery) : Prop :=
  match d.event with
  | .activateKey keyId urls digests =>
    (downloadKeys K d.s3 urls keyId digests).isOk → digests = [] ∨
      ((∃ key ∈ digests, key.keyType = .serverKey) ∧ ∃ key ∈ digests, key.keyType = .publicKey)
  | _ => True

/-- The rows after one event after another. An event that fails leaves them. -/
def keyEvents (setup : Tenants) : System Tenants Delivery where
  init := setup
  step tenants d := some <|
    match handleEvent K hostChainId d tenants with
    | .ok tenants => tenants
    | .error _ => tenants

variable {K hostChainId}

/-! ## What a list of keys writes -/

/-- What a list of keys leaves in a row that it is for. -/
structure Written (K : KeyLibrary) (keyId : Bytes) (keys : List (KeyType × Bytes))
    (row row' : Tenant) : Prop where
  keyId : (keys = [] ∧ row'.keyId = row.keyId) ∨ (keys ≠ [] ∧ row'.keyId = keyId)
  publicKey : ((∀ key ∈ keys, key.1 ≠ .publicKey) ∧ row'.pksKey = row.pksKey) ∨
    (.publicKey, row'.pksKey) ∈ keys
  serverKey : ((∀ key ∈ keys, key.1 ≠ .serverKey) ∧ row'.snsPk = row.snsPk ∧
      row'.sksKey = row.sksKey) ∨
    ((.serverKey, row'.snsPk) ∈ keys ∧ K.extractServerKeyWithoutNs row'.snsPk = some row'.sksKey)

theorem Written.nil {keyId : Bytes} {row : Tenant} : Written K keyId [] row row := by
  constructor <;> simp

/-- A key is written, and then the others. -/
theorem Written.cons {keyId reduced : Bytes} {key : KeyType × Bytes} {keys : List (KeyType × Bytes)}
    {row row' : Tenant} (hreduced : reducedKeyBytes K key = .ok reduced)
    (h : Written K keyId keys (row.setKey keyId key reduced) row') :
    Written K keyId (key :: keys) row row' := by
  obtain ⟨type, bytes⟩ := key
  cases type with
  | serverKey =>
    have hextract : K.extractServerKeyWithoutNs bytes = some reduced := by
      unfold reducedKeyBytes at hreduced
      cases hk : K.extractServerKeyWithoutNs bytes with
      | none => simp [hk] at hreduced
      | some r => simpa [hk] using hreduced
    constructor
    · right
      obtain ⟨-, hid⟩ | ⟨-, hid⟩ := h.keyId <;> exact ⟨by simp, hid⟩
    · obtain ⟨hnone, hsame⟩ | hmem := h.publicKey
      · left
        exact ⟨by simpa using hnone, hsame⟩
      · exact .inr (List.mem_cons_of_mem _ hmem)
    · right
      obtain ⟨-, hsns, hsks⟩ | ⟨hmem, hk⟩ := h.serverKey
      · rw [hsns, hsks]
        exact ⟨List.mem_cons_self, hextract⟩
      · exact ⟨List.mem_cons_of_mem _ hmem, hk⟩
  | publicKey =>
    constructor
    · right
      obtain ⟨-, hid⟩ | ⟨-, hid⟩ := h.keyId <;> exact ⟨by simp, hid⟩
    · right
      obtain ⟨-, hsame⟩ | hmem := h.publicKey
      · rw [hsame]
        exact List.mem_cons_self
      · exact List.mem_cons_of_mem _ hmem
    · obtain ⟨hnone, hsame⟩ | ⟨hmem, hk⟩ := h.serverKey
      · left
        exact ⟨by simpa using hnone, hsame⟩
      · exact .inr ⟨List.mem_cons_of_mem _ hmem, hk⟩

/-- The row of the tenant has all keys written to it, and the other rows are as before. -/
theorem written_of_mem {tenantId chainId : ℕ} {keyId : Bytes} {keys : List (KeyType × Bytes)}
    {tenants tenants' : Tenants}
    (h : keys.foldlM (updateTenantKey K tenantId chainId keyId) tenants = .ok tenants')
    {row' : Tenant} (hrow' : row' ∈ tenants'.rows) :
    ∃ row ∈ tenants.rows, row'.tenantId = row.tenantId ∧
      (row.tenantId = tenantId ∧ row.chainId = chainId → Written K keyId keys row row') ∧
      (¬ (row.tenantId = tenantId ∧ row.chainId = chainId) → row' = row) := by
  induction keys generalizing tenants with
  | nil =>
    rw [List.foldlM_nil, pure_eq_ok] at h
    subst h
    exact ⟨row', hrow', rfl, fun _ => .nil, fun _ => rfl⟩
  | cons key keys ih =>
    simp only [List.foldlM_cons, updateTenantKey, bind_eq_ok, require_eq_ok, pure_eq_ok] at h
    obtain ⟨_, ⟨reduced, hreduced, _, -, rfl⟩, hkeys⟩ := h
    obtain ⟨mid, hmid, htenant, hown, hother⟩ := ih hkeys
    obtain ⟨row, hrow, rfl⟩ := List.mem_map.mp hmid
    by_cases hmatch : row.tenantId = tenantId ∧ row.chainId = chainId
    · rw [if_pos (by simpa using hmatch)] at htenant hown
      rw [row.tenantId_setKey] at htenant
      refine ⟨row, hrow, htenant, fun _ => (hown ?_).cons hreduced, fun hno => absurd hmatch hno⟩
      rw [row.tenantId_setKey, row.chainId_setKey]
      exact hmatch
    · rw [if_neg (by simpa using hmatch)] at htenant hother
      exact ⟨row, hrow, htenant, fun hyes => absurd hyes hmatch, hother⟩

/-! ## Events -/

/-- Each key that is downloaded is that of a digest, and each digest has one. -/
theorem mem_downloadKeys {s3 : BucketKeys} {urls : List String} {keyId : ℕ}
    {digests : List KeyDigest} {keys : List (KeyType × Bytes)}
    (h : downloadKeys K s3 urls keyId digests = .ok keys) :
    (∀ key ∈ keys, ∃ d ∈ digests, d.keyType = key.1 ∧ K.digestKey key.2 = d.digest) ∧
      ∀ d ∈ digests, ∃ key ∈ keys, key.1 = d.keyType := by
  have hdownload : ∀ {d : KeyDigest × ℕ} {key : KeyType × Bytes},
      downloadKey K s3 urls keyId d = .ok key →
        d.1.keyType = key.1 ∧ K.digestKey key.2 = d.1.digest := by
    intro d key hkey
    unfold downloadKey at hkey
    split at hkey
    · cases hkey
    · simp only [bind_eq_ok, require_eq_ok, pure_eq_ok] at hkey
      obtain ⟨_, hdigest, rfl⟩ := hkey
      exact ⟨rfl, hdigest⟩
  constructor
  · intro key hkey
    obtain ⟨d, hd, hkey⟩ := exists_of_mem_mapM h hkey
    have hmem := List.mem_of_getElem? (List.mem_zipIdx_iff_getElem?.mp hd)
    exact ⟨d.1, hmem, hdownload hkey⟩
  · intro d hd
    obtain ⟨i, hi⟩ := List.mem_iff_getElem?.mp hd
    obtain ⟨key, hkey, hget⟩ := mapM_of_mem h (List.mem_zipIdx_iff_getElem?.mpr hi : (d, i) ∈ _)
    exact ⟨key, hkey, (hdownload hget).1.symm⟩

/-- An event with keys of both types replaces all columns of its tenant. -/
theorem comesFrom_of_written {s3 : BucketKeys} {urls : List String} {keyId : ℕ}
    {digests : List KeyDigest} {keys : List (KeyType × Bytes)} {row row' : Tenant}
    (hkeys : downloadKeys K s3 urls keyId digests = .ok keys)
    (hserver : ∃ key ∈ digests, key.keyType = .serverKey)
    (hpublic : ∃ key ∈ digests, key.keyType = .publicKey)
    (h : Written K (keyIdToDatabaseBytes keyId) keys row row') : ComesFrom K row' keyId digests := by
  obtain ⟨hdigest, hkey⟩ := mem_downloadKeys hkeys
  have htype : ∀ type, (∃ key ∈ digests, key.keyType = type) → ∃ key ∈ keys, key.1 = type := by
    rintro type ⟨d, hd, rfl⟩
    exact hkey d hd
  constructor
  · obtain ⟨hnil, -⟩ | ⟨-, hid⟩ := h.keyId
    · obtain ⟨key, hmem, -⟩ := htype _ hserver
      simp [hnil] at hmem
    · exact hid
  · obtain ⟨hnone, -⟩ | hmem := h.publicKey
    · obtain ⟨key, hmem, htype⟩ := htype _ hpublic
      exact absurd htype (hnone key hmem)
    · exact hdigest _ hmem
  all_goals
    obtain ⟨hnone, -⟩ | ⟨hmem, hextract⟩ := h.serverKey
    · obtain ⟨key, hmem, htype⟩ := htype _ hserver
      exact absurd htype (hnone key hmem)
  · exact hdigest _ hmem
  · exact hextract

/-- What one event does to a row. -/
theorem row_of_handleEvent {d : Delivery} {tenants tenants' : Tenants} (hbalanced : Balanced K d)
    (h : handleEvent K hostChainId d tenants = .ok tenants') {row' : Tenant}
    (hrow' : row' ∈ tenants'.rows) :
    (∃ row ∈ tenants.rows, row.tenantId = row'.tenantId ∧ SameKeys row' row) ∨
      ∃ keyId urls digests, d.event = .activateKey keyId urls digests ∧
        ComesFrom K row' keyId digests := by
  unfold handleEvent at h
  split at h
  · next keyId urls digests hevent =>
    simp only [activateKey, bind_eq_ok, require_eq_ok] at h
    obtain ⟨keys, hkeys, tenantId, -, _, -, hwrites⟩ := h
    obtain ⟨row, hrow, htenant, hown, hother⟩ := written_of_mem hwrites hrow'
    by_cases hmatch : row.tenantId = tenantId ∧ row.chainId = hostChainId
    · simp only [Balanced, hevent, hkeys] at hbalanced
      obtain rfl | ⟨hserver, hpublic⟩ := hbalanced rfl
      · obtain rfl : keys = [] := by
          rw [downloadKeys, List.zipIdx_nil, List.mapM_nil, pure_eq_ok] at hkeys
          exact hkeys.symm
        rw [List.foldlM_nil, pure_eq_ok] at hwrites
        subst hwrites
        exact .inl ⟨row', hrow', rfl, rfl, rfl, rfl, rfl⟩
      · exact .inr ⟨keyId, urls, digests, hevent,
          comesFrom_of_written hkeys hserver hpublic (hown hmatch)⟩
    · obtain rfl := hother hmatch
      exact .inl ⟨row', hrow, rfl, rfl, rfl, rfl, rfl⟩
  · next crsId urls digest hevent =>
    unfold activateCrs at h
    split at h
    · cases h
    · simp only [updateTenantCrs, bind_eq_ok, require_eq_ok, pure_eq_ok] at h
      obtain ⟨_, -, tenantId, -, _, -, _, -, rfl⟩ := h
      obtain ⟨row, hrow, rfl⟩ := List.mem_map.mp hrow'
      refine .inl ⟨row, hrow, ?_⟩
      split <;> exact ⟨rfl, rfl, rfl, rfl, rfl⟩
  · obtain rfl := Except.ok.inj h
    exact .inl ⟨row', hrow', rfl, rfl, rfl, rfl, rfl⟩

/-- After every event, all columns of a row are those of one event, or still those of its setup. -/
theorem keys_together {setup tenants : Tenants} {past : List Delivery}
    (h : (keyEvents K hostChainId setup).Run (fun _ d => Balanced K d) past tenants) :
    ∀ row ∈ tenants.rows,
      (∃ old ∈ setup.rows, old.tenantId = row.tenantId ∧ SameKeys row old) ∨
        ∃ d ∈ past, ∃ keyId urls digests, d.event = .activateKey keyId urls digests ∧
          ComesFrom K row keyId digests := by
  induction h with
  | start => exact fun row hrow => .inl ⟨row, hrow, rfl, rfl, rfl, rfl, rfl⟩
  | @step past d tenants tenants' _ hbalanced hstep ih =>
    obtain rfl := Option.some.inj hstep
    intro row' hrow'
    have hkept : ∀ row ∈ tenants.rows, row.tenantId = row'.tenantId → SameKeys row' row →
        (∃ old ∈ setup.rows, old.tenantId = row'.tenantId ∧ SameKeys row' old) ∨
          ∃ e ∈ d :: past, ∃ keyId urls digests, e.event = .activateKey keyId urls digests ∧
            ComesFrom K row' keyId digests := by
      rintro row hrow htenant ⟨hpks, hsks, hsns, hid⟩
      obtain ⟨old, hold, hsetup, hpks', hsks', hsns', hid'⟩ |
        ⟨e, he, keyId, urls, digests, hevent, hfrom⟩ := ih row hrow
      · exact .inl ⟨old, hold, hsetup.trans htenant, hpks.trans hpks', hsks.trans hsks',
          hsns.trans hsns', hid.trans hid'⟩
      · obtain ⟨hkeyId, hpks', hsns', hsks'⟩ := hfrom
        exact .inr ⟨e, List.mem_cons_of_mem _ he, keyId, urls, digests, hevent,
          hid ▸ hkeyId, hpks ▸ hpks', hsns ▸ hsns', hsns ▸ hsks ▸ hsks'⟩
    split at hrow'
    · next tenants' hhandle =>
      obtain ⟨row, hrow, htenant, hsame⟩ | ⟨keyId, urls, digests, hevent, hfrom⟩ :=
        row_of_handleEvent hbalanced hhandle hrow'
      · exact hkept row hrow htenant hsame
      · exact .inr ⟨d, List.mem_cons_self, keyId, urls, digests, hevent, hfrom⟩
    · exact hkept row' hrow' rfl ⟨rfl, rfl, rfl, rfl⟩

end Keys

/-! ## Samples -/

/-- There are two buckets, with a key each. -/
def sampleBuckets : BucketKeys := fun url _ => if url = "a" then some [1] else some [2]

def sampleDigest (type : KeyType) (key : Bytes) : KeyDigest := ⟨type, DSEP_PUBDATA_KEY ++ key⟩

def sampleActivation (digests : List KeyDigest) : Delivery where
  event := .activateKey 7 ["a", "b"] digests
  s3 := sampleBuckets

def sampleKeys (digests : List KeyDigest) : Option Tenants :=
  (keyEvents sampleLibrary 12345 sampleSetup).replay (fun _ _ => True) [sampleActivation digests]

/-- The row after the activation of a server key and perhaps of a public key. -/
def sampleRow (pksKey : Bytes) : Tenant where
  tenantId := 1
  chainId := 12345
  pksKey := pksKey
  sksKey := [1]
  snsPk := [1]
  keyId := keyIdToDatabaseBytes 7

def sampleDigests : List KeyDigest := [sampleDigest .serverKey [1], sampleDigest .publicKey [2]]

theorem sampleKeys_together : ∃ tenants, sampleKeys sampleDigests = some tenants ∧
    tenants.rows = [sampleRow [2]] ∧
    ∀ row ∈ tenants.rows,
      (∃ old ∈ sampleSetup.rows, old.tenantId = row.tenantId ∧ SameKeys row old) ∨
        ∃ d ∈ [sampleActivation sampleDigests], ∃ keyId urls digests,
          d.event = .activateKey keyId urls digests ∧
            ComesFrom sampleLibrary row keyId digests := by
  have hrows : (sampleKeys sampleDigests).map Table.rows = some [sampleRow [2]] := by
    decide +kernel
  obtain ⟨tenants, hs, hrow⟩ := Option.map_eq_some_iff.mp hrows
  have hbalanced : Balanced sampleLibrary (sampleActivation sampleDigests) := by
    simp [Balanced, sampleActivation, sampleDigests, sampleDigest]
  exact ⟨tenants, hs, hrow, keys_together (.step .start hbalanced hs)⟩

/-- Without a digest of the public key, the server key is replaced alone. -/
theorem sampleKeys_apart : ¬ ∀ past tenants,
    (keyEvents sampleLibrary 12345 sampleSetup).Run (fun _ _ => True) past tenants →
    ∀ row ∈ tenants.rows,
      (∃ old ∈ sampleSetup.rows, old.tenantId = row.tenantId ∧ SameKeys row old) ∨
        ∃ d ∈ past, ∃ keyId urls digests, d.event = .activateKey keyId urls digests ∧
          ComesFrom sampleLibrary row keyId digests := by
  intro h
  have hrows : (sampleKeys [sampleDigest .serverKey [1]]).map Table.rows = some [sampleRow []] := by
    decide +kernel
  obtain ⟨tenants, hs, hrow⟩ := Option.map_eq_some_iff.mp hrows
  obtain ⟨old, hold, -, -, hsks, -⟩ | ⟨d, hd, keyId, urls, digests, hevent, hfrom⟩ :=
    h _ tenants (System.run_of_replay hs) _ (hrow ▸ List.mem_cons_self)
  · simp only [sampleSetup, List.mem_singleton] at hold
    subst hold
    exact absurd hsks (by decide)
  · rw [List.mem_singleton] at hd
    subst hd
    obtain ⟨rfl, rfl, rfl⟩ := KMSGenerationEvent.activateKey.inj hevent
    obtain ⟨key, hkey, htype, -⟩ := hfrom.pksKey
    simp only [List.mem_singleton] at hkey
    subst hkey
    cases htype

end Fhevm.GwListener
