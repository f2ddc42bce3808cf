import Fhevm.Foundation.Memo
import Fhevm.Gateway.GatewayConfig
import Fhevm.Host.PackedInputs
import Fhevm.Sdk.InputHandles
import Fhevm.ZkProof.VerifyProofs

/-!
# The chain id of an input proof

The chain id of a request goes through the listener and its table to the worker, which looks up the
keys of the tenant by it, and from the row of the tenant into the data of the proof and into the
handles.

## Main definitions

* `queryTenantKeys`, `fetchTenantServerKey` — the keys of the tenants of a chain, and their cache.
* `CacheReached` — the caches that there can be.
* `processRequest` — a request, from its event to its ciphertexts.
* `ChainIdAgrees` — the chain id is written as the SDK and the contracts write it.

## Main results

* `processRequest_agrees_iff` — the chain ids for which that is so.
-/

namespace Fhevm.ZkProof

open Foundation Contract Gateway Host

variable {L R : Type}

/-! ## Keys -/

/-- A row of `tenants`, with the keys that are deserialized from it unless they are not valid. -/
structure TenantRow (L R : Type) where
  tenantId : ℤ
  chainId : Int64
  chainId_nonneg : 0 ≤ chainId.toInt
  aclContractAddress : Address
  keys : Option (ProofLibrary L R)

structure FetchTenantKeyResult (L R : Type) where
  tenantId : ℤ
  chainId : Int64
  aclContractAddress : Address
  keys : ProofLibrary L R

inductive KeyError
  | integerOutOfRange
  | invalidKey
  /-- The assertion that there are keys has failed, which is a panic. -/
  | noKeys
deriving DecidableEq, Repr

/-- An element of `$1::INT[]`. -/
def castInt (id : Int64) : Except KeyError ℤ := do
  require (-2 ^ 31 ≤ id.toInt ∧ id.toInt < 2 ^ 31) .integerOutOfRange
  return id.toInt

def TenantRow.deserialize (row : TenantRow L R) : Except KeyError (FetchTenantKeyResult L R) :=
  match row.keys with
  | some keys => .ok ⟨row.tenantId, row.chainId, row.aclContractAddress, keys⟩
  | none => .error .invalidKey

def queryTenantKeys (tenants : List (TenantRow L R)) (id : Int64) :
    Except KeyError (List (FetchTenantKeyResult L R)) := do
  let id ← castInt id
  (tenants.filter fun row => row.chainId.toInt = id).mapM TenantRow.deserialize

abbrev TenantKeyCache (L R : Type) := Cache Int64 (FetchTenantKeyResult L R)

def TenantKeyCache.put (cache : TenantKeyCache L R) (key : FetchTenantKeyResult L R) :
    TenantKeyCache L R :=
  Function.update cache key.chainId (some key)

def populateCacheWithTenantKeys (cache : TenantKeyCache L R) (tenants : List (TenantRow L R))
    (id : Int64) : Except KeyError (TenantKeyCache L R) := do
  let keys ← queryTenantKeys tenants id
  require (keys.length ≠ 0) .noKeys
  return keys.foldl TenantKeyCache.put cache

/-- The keys of a chain, and the cache when they are there. -/
def fetchTenantServerKey (cache : TenantKeyCache L R) (tenants : List (TenantRow L R))
    (id : Int64) : Except KeyError (FetchTenantKeyResult L R × TenantKeyCache L R) :=
  match cache id with
  | some keys => .ok (keys, cache)
  | none => do
    let cache ← populateCacheWithTenantKeys cache tenants id
    match cache id with
    | some keys => .ok (keys, cache)
    -- the loop would go on
    | none => .error .noKeys

/-- The caches of a worker, with tables that change between the fetches. -/
inductive CacheReached : TenantKeyCache L R → Prop
  | empty : CacheReached Cache.empty
  | fetched {cache cache' : TenantKeyCache L R} {tenants : List (TenantRow L R)} {id : Int64}
      {keys : FetchTenantKeyResult L R} : CacheReached cache →
      fetchTenantServerKey cache tenants id = .ok (keys, cache') → CacheReached cache'
  | evicted {cache : TenantKeyCache L R} (id : Int64) :
      CacheReached cache → CacheReached (cache.evict id)

/-! ## Requests -/

inductive RequestFailure
  /-- A conversion of the listener has panicked. -/
  | conversionPanic
  | serverKeysNotFound (e : KeyError)
deriving DecidableEq, Repr

/-- What the worker makes of the row of a request with the keys of a tenant. -/
def FetchTenantKeyResult.aux (keys : FetchTenantKeyResult L R) (row : VerifyProof) : ZkData where
  contractAddress := row.contractAddress
  userAddress := row.userAddress
  aclContractAddress := keys.aclContractAddress
  chainId := keys.chainId

/-- The row that the listener inserts. -/
def VerifyProofRequest.convert (request : VerifyProofRequest) : Except RequestFailure VerifyProof :=
  match request.row with
  | some row => .ok row
  | none => .error .conversionPanic

/-- The data that the proof of a request is checked against, and the outcome. -/
def processRequest (keccak256 : Bytes → Bytes32) (cache : TenantKeyCache L R)
    (tenants : List (TenantRow L R)) (request : VerifyProofRequest) :
    Except RequestFailure (ZkData × Except ExecutionError (List Ciphertext × Bytes)) := do
  let row ← request.convert
  let (keys, _) ← (fetchTenantServerKey cache tenants row.chainId).mapError .serverKeysNotFound
  return (keys.aux row,
    verifyProof keccak256 keys.keys row.zkProofId.toInt (keys.aux row) row.input)

/-- `create_auxiliary_data` of the SDK -/
def createAuxiliaryData (aclContractAddress : Address) (chainId : UInt64)
    (contractAddress userAddress : Address) : Bytes :=
  addressBytes contractAddress ++ addressBytes userAddress ++ addressBytes aclContractAddress ++
    Sdk.chainIdToBytes chainId

/-- The data of the proof is that of the SDK, with the chain id as contracts encode it; and every
handle has the bytes of the SDK, which the contracts read as the chain id. -/
structure ChainIdAgrees (chainId : ℕ) (aux : ZkData)
    (outcome : Except ExecutionError (List Ciphertext × Bytes)) : Prop where
  noPanic : outcome ≠ .error .joinError
  assemble : aux.assemble = .ok (createAuxiliaryData aux.aclContractAddress (UInt64.ofNat chainId)
    aux.contractAddress aux.userAddress)
  encoded : Sdk.chainIdToBytes (UInt64.ofNat chainId) = uintBytes chainId
  handle : ∀ cts blobHash, outcome = .ok (cts, blobHash) → ∀ ct ∈ cts,
    (ct.handle.drop 22).take 8 = ((Sdk.chainIdToBytes (UInt64.ofNat chainId)).drop 24).take 8 ∧
      ∃ handle, wordBytes handle = ct.handle ∧ (extractChainId handle).toNat = chainId ∧
        (recoveredChainId handle).toNat = chainId

/-! ## What can be fetched -/

theorem castInt_eq_ok {id : Int64} {n : ℤ} :
    castInt id = .ok n ↔ (-2 ^ 31 ≤ id.toInt ∧ id.toInt < 2 ^ 31) ∧ id.toInt = n := by
  simp only [castInt, bind_eq_ok, require_eq_ok, pure_eq_ok, exists_and_left, exists_const]

theorem chainId_of_deserialize {row : TenantRow L R} {keys : FetchTenantKeyResult L R}
    (h : row.deserialize = .ok keys) : keys.chainId = row.chainId := by
  unfold TenantRow.deserialize at h
  split at h
  · cases h
    rfl
  · cases h

/-- The keys of a query are those of the chain, whose id is a 32-bit integer. -/
theorem chainId_of_queryTenantKeys {tenants : List (TenantRow L R)} {id : Int64}
    {keys : List (FetchTenantKeyResult L R)} (h : queryTenantKeys tenants id = .ok keys) :
    id.toInt < 2 ^ 31 ∧ ∀ key ∈ keys, key.chainId = id ∧ 0 ≤ id.toInt := by
  simp only [queryTenantKeys, bind_eq_ok, castInt_eq_ok] at h
  obtain ⟨_, ⟨hrange, rfl⟩, hkeys⟩ := h
  refine ⟨hrange.2, fun key hkey => ?_⟩
  obtain ⟨row, hrow, hdeserialize⟩ := exists_of_mem_mapM hkeys hkey
  have hid : row.chainId = id := by
    have hchain := (List.mem_filter.mp hrow).2
    exact Int64.toInt_inj.mp (by simpa using hchain)
  exact ⟨(chainId_of_deserialize hdeserialize).trans hid, hid ▸ row.chainId_nonneg⟩

/-- What keys that are put into a cache leave in it. -/
theorem foldl_put (keys : List (FetchTenantKeyResult L R)) (cache : TenantKeyCache L R)
    (id : Int64) :
    (∃ key ∈ keys, key.chainId = id ∧ (keys.foldl TenantKeyCache.put cache) id = some key) ∨
      (∀ key ∈ keys, key.chainId ≠ id) ∧
        (keys.foldl TenantKeyCache.put cache) id = cache id := by
  induction keys generalizing cache with
  | nil => simp
  | cons key keys ih =>
    rw [List.foldl_cons]
    obtain ⟨key', hmem, hid, hget⟩ | ⟨hne, hget⟩ := ih (cache.put key)
    · exact .inl ⟨key', List.mem_cons_of_mem _ hmem, hid, hget⟩
    · by_cases hid : key.chainId = id
      · refine .inl ⟨key, List.mem_cons_self, hid, ?_⟩
        rw [hget, TenantKeyCache.put, hid, Function.update_self]
      · refine .inr ⟨?_, ?_⟩
        · simpa [hid] using hne
        · rw [hget, TenantKeyCache.put, Function.update_of_ne (Ne.symm hid)]

theorem populateCache_ok {cache cache' : TenantKeyCache L R} {tenants : List (TenantRow L R)}
    {id : Int64} (h : populateCacheWithTenantKeys cache tenants id = .ok cache') :
    0 ≤ id.toInt ∧ id.toInt < 2 ^ 31 ∧ ∀ id', cache' id' = cache id' ∨
      ∃ keys, cache' id' = some keys ∧ keys.chainId = id' ∧ id' = id := by
  simp only [populateCacheWithTenantKeys, bind_eq_ok, require_eq_ok, pure_eq_ok,
    exists_and_left, exists_const] at h
  obtain ⟨keys, hquery, hne, rfl⟩ := h
  obtain ⟨hlt, hall⟩ := chainId_of_queryTenantKeys hquery
  obtain ⟨first, hfirst⟩ := List.exists_mem_of_length_pos (Nat.pos_of_ne_zero hne)
  refine ⟨(hall first hfirst).2, hlt, fun id' => ?_⟩
  obtain ⟨key, hmem, hid, hget⟩ | ⟨-, hget⟩ := foldl_put keys cache id'
  · exact .inr ⟨key, hget, hid, hid ▸ (hall key hmem).1⟩
  · exact .inl hget

/-- A cache holds keys under the id of their chain, and under no id that a query cannot ask for. -/
theorem chainId_of_cacheReached {cache : TenantKeyCache L R} (h : CacheReached cache) :
    ∀ id keys, cache id = some keys →
      keys.chainId = id ∧ 0 ≤ id.toInt ∧ id.toInt < 2 ^ 31 := by
  induction h with
  | empty => exact fun _ _ h => by cases h
  | @fetched cache cache' tenants id keys _ hfetch ih =>
    intro id' keys' hget
    unfold fetchTenantServerKey at hfetch
    split at hfetch
    · cases hfetch
      exact ih id' keys' hget
    · simp only [bind_eq_ok] at hfetch
      obtain ⟨cache'', hpopulate, hfetch⟩ := hfetch
      split at hfetch
      · cases hfetch
        obtain ⟨hnonneg, hlt, hall⟩ := populateCache_ok hpopulate
        obtain hold | ⟨keys'', hnew, hchain, rfl⟩ := hall id'
        · exact ih id' keys' (hold ▸ hget)
        · obtain rfl := Option.some.inj (hnew.symm.trans hget)
          exact ⟨hchain, hnonneg, hlt⟩
      · cases hfetch
  | evicted id _ ih =>
    intro id' keys' hget
    by_cases hid : id' = id
    · subst hid
      simp [Cache.evict] at hget
    · rw [Cache.evict, Function.update_of_ne hid] at hget
      exact ih id' keys' hget

/-- The keys that are fetched are those of the chain, whose id is a 32-bit integer. -/
theorem chainId_of_fetch {cache cache' : TenantKeyCache L R} {tenants : List (TenantRow L R)}
    {id : Int64} {keys : FetchTenantKeyResult L R} (hcache : CacheReached cache)
    (h : fetchTenantServerKey cache tenants id = .ok (keys, cache')) :
    keys.chainId = id ∧ 0 ≤ id.toInt ∧ id.toInt < 2 ^ 31 := by
  refine chainId_of_cacheReached (.fetched hcache h) id keys ?_
  unfold fetchTenantServerKey at h
  split at h
  · next hget =>
    cases h
    exact hget
  · simp only [bind_eq_ok] at h
    obtain ⟨cache'', -, h⟩ := h
    split at h
    · next hget =>
      cases h
      exact hget
    · cases h

/-- Keys are fetched if the table has them and their chain id is a 32-bit integer. -/
theorem exists_fetch (cache : TenantKeyCache L R) {tenants : List (TenantRow L R)} {id : Int64}
    (hlt : id.toInt < 2 ^ 31) (hrow : ∃ row ∈ tenants, row.chainId = id)
    (hkeys : ∀ row ∈ tenants, row.chainId = id → row.keys.isSome) :
    ∃ keys cache', fetchTenantServerKey cache tenants id = .ok (keys, cache') := by
  unfold fetchTenantServerKey
  split
  · exact ⟨_, _, rfl⟩
  · obtain ⟨row, hmem, hid⟩ := hrow
    have hnonneg : 0 ≤ id.toInt := hid ▸ row.chainId_nonneg
    have hselected : ∀ row, row ∈ tenants.filter (fun row => row.chainId.toInt = id.toInt) ↔
        row ∈ tenants ∧ row.chainId = id := by
      intro row
      simp [List.mem_filter, Int64.toInt_inj]
    have hdeserialize : ∀ row ∈ tenants.filter (fun row => row.chainId.toInt = id.toInt),
        ∃ key, row.deserialize = .ok key := by
      intro row hrow
      obtain ⟨hmem, hid⟩ := (hselected row).mp hrow
      obtain ⟨key, hkey⟩ := Option.isSome_iff_exists.mp (hkeys row hmem hid)
      exact ⟨_, by rw [TenantRow.deserialize, hkey]⟩
    obtain ⟨keys, hmapM, hlength⟩ := exists_mapM_ok hdeserialize
    have hquery : queryTenantKeys tenants id = .ok keys := by
      simp only [queryTenantKeys, bind_eq_ok, castInt_eq_ok]
      exact ⟨id.toInt, ⟨⟨by omega, hlt⟩, rfl⟩, hmapM⟩
    have hpos : 0 < keys.length := by
      rw [hlength]
      exact List.length_pos_of_mem ((hselected row).mpr ⟨hmem, hid⟩)
    have hpopulate : populateCacheWithTenantKeys cache tenants id =
        .ok (keys.foldl TenantKeyCache.put cache) := by
      simp only [populateCacheWithTenantKeys, bind_eq_ok, require_eq_ok, pure_eq_ok]
      exact ⟨keys, hquery, (), by omega, rfl⟩
    obtain ⟨first, hfirst⟩ := List.exists_mem_of_length_pos hpos
    obtain ⟨key, -, -, hget⟩ | ⟨hne, -⟩ := foldl_put keys cache id
    · refine ⟨key, keys.foldl TenantKeyCache.put cache, ?_⟩
      simp only [bind_eq_ok]
      exact ⟨_, hpopulate, by rw [hget]⟩
    · exact absurd ((chainId_of_queryTenantKeys hquery).2 first hfirst).1 (hne first hfirst)

/-! ## What is written -/

section Written

variable {keccak256 : Bytes → Bytes32} {T : ProofLibrary L R} {requestId : Int} {aux : ZkData}
  {rawCt : Bytes}

theorem createCiphertext_ne_joinError {blobHash : Bytes} {ctIdx : Nat}
    {theCt : SupportedFheCiphertexts R} (hchain : 0 ≤ aux.chainId.toInt) :
    createCiphertext keccak256 T blobHash ctIdx theCt aux ≠ .error .joinError := by
  simp [createCiphertext, bind_eq_error, chainIdBytes, hchain, pure, Except.pure]

theorem extractCt_ne_joinError (entry : FheType × R) : extractCt entry ≠ .error .joinError := by
  unfold extractCt
  split <;> simp

/-- The worker does not panic on a chain id that is not negative. -/
theorem verifyProof_ne_joinError (hchain : 0 ≤ aux.chainId.toInt) :
    verifyProof keccak256 T requestId aux rawCt ≠ .error .joinError := by
  intro h
  simp only [verifyProof, bind_eq_error] at h
  obtain h | ⟨cts, -, h | ⟨out, -, h⟩⟩ := h
  · have hassemble : aux.assemble = .ok (addressBytes aux.contractAddress ++
        addressBytes aux.userAddress ++ addressBytes aux.aclContractAddress ++
          BigEndian.encode 32 aux.chainId.toInt.toNat) := by
      simp [ZkData.assemble, chainIdBytes_eq_ok, hchain]
    simp only [tryVerifyAndExpandCiphertextList, bind_eq_error, hassemble] at h
    obtain h | ⟨_, -, h | ⟨theList, -, h⟩⟩ := h
    · cases h
    · cases hlist : T.safeDeserializeConformant rawCt <;> simp [hlist, Except.mapError] at h
    · split at h
      · cases h
      · simp only [bind_eq_error, require_eq_error] at h
        obtain ⟨-, h⟩ | ⟨_, -, h | ⟨entries, -, h⟩⟩ := h
        · cases h
        · revert h
          cases T.verifyAndExpand theList _ <;> simp [Except.mapError]
        · obtain ⟨entry, -, hentry⟩ := exists_error_of_mapM h
          exact extractCt_ne_joinError entry hentry
  · obtain ⟨ct, -, hct⟩ := exists_error_of_mapM h
    exact createCiphertext_ne_joinError hchain hct
  · cases h

theorem toNat_toUInt64 {n : Int64} {chainId : ℕ} (h : n.toInt = chainId) :
    n.toUInt64.toNat = chainId := by
  rw [← Int64.toInt_toBitVec, BitVec.toInt_eq_toNat_cond] at h
  rw [← UInt64.toNat_toBitVec, Int64.toBitVec_toUInt64]
  have hlt := n.toBitVec.isLt
  split at h <;> omega

/-- The word with the bytes of a handle. -/
theorem exists_wordBytes {bytes : Bytes} (h : bytes.length = 32) :
    ∃ word : Bytes32, wordBytes word = bytes := by
  refine ⟨BitVec.ofNat 256 (BigEndian.decode bytes), ?_⟩
  have hlt := BigEndian.decode_lt bytes
  rw [h] at hlt
  rw [wordBytes, BitVec.toNat_ofNat, Nat.mod_eq_of_lt (hlt.trans_eq (by norm_num))]
  conv_rhs => rw [← BigEndian.encode_decode bytes, h]

theorem chainIdAgrees_of_toInt {chainId : ℕ} (hchain : aux.chainId.toInt = chainId)
    (hlt : chainId < 2 ^ 64) :
    ChainIdAgrees chainId aux (verifyProof keccak256 T requestId aux rawCt) := by
  have hsdk : Sdk.chainIdToBytes (UInt64.ofNat chainId) = BigEndian.encode 32 chainId := by
    rw [Sdk.chainIdToBytes_eq, UInt64.toNat_ofNat_of_lt' hlt]
  have hlow : (BigEndian.encode 32 chainId).drop 24 = BigEndian.encode 8 chainId := by
    have hpad := BigEndian.encode_add 24 (n := 8) (v := chainId) (hlt.trans_eq (by norm_num))
    rw [hpad, List.drop_left' (List.length_replicate ..)]
  refine ⟨verifyProof_ne_joinError (by omega), ?_, hsdk, ?_⟩
  · simp only [ZkData.assemble, createAuxiliaryData, bind_eq_ok, chainIdBytes_eq_ok, pure_eq_ok]
    exact ⟨_, ⟨by omega, rfl⟩, by rw [hsdk, hchain, Int.toNat_natCast]⟩
  · intro cts blobHash hverify ct hct
    obtain ⟨expanded, -, -, hcts⟩ := verifyProof_ok hverify
    obtain ⟨entry, -, hcreate⟩ := exists_of_mem_mapM (mapM_eq_ok.mpr hcts) hct
    obtain ⟨hash, hlength, hhandle⟩ : ∃ hash : Bytes, hash.length = 21 ∧ ct.handle =
        hash ++ (UInt8.ofNat entry.2 :: BigEndian.encode 8 aux.chainId.toUInt64.toNat ++
          [UInt8.ofNat entry.1.typeNum, currentCiphertextVersion]) :=
      ⟨_, List.length_take_of_le (by simp), createCiphertext_handle hcreate⟩
    rw [toNat_toUInt64 hchain] at hhandle
    -- the 21 bytes of the hash and the index stand before the chain id
    obtain ⟨front, hfront, hbytes⟩ : ∃ front : Bytes, front.length = 22 ∧ ct.handle = front ++
        (BigEndian.encode 8 chainId ++ [UInt8.ofNat entry.1.typeNum, currentCiphertextVersion]) :=
      ⟨hash ++ [UInt8.ofNat entry.2], by simp [hlength], hhandle.trans (by simp)⟩
    obtain ⟨handle, hword⟩ := exists_wordBytes (by simp [hbytes, hfront] : ct.handle.length = 32)
    have hread := toNat_extractLsb'_of_bytes front (BigEndian.encode 8 chainId)
      [UInt8.ofNat entry.1.typeNum, currentCiphertextVersion] (hword.trans hbytes)
    rw [BigEndian.decode_encode, Nat.mod_eq_of_lt (hlt.trans_eq (by norm_num)),
      BigEndian.length_encode] at hread
    refine ⟨?_, handle, hword, ?_, ?_⟩
    · rw [hsdk, hlow, hbytes, List.drop_left' hfront,
        List.take_left' (BigEndian.length_encode ..),
        List.take_of_length_le (BigEndian.length_encode ..).le]
    · rw [extractChainId_eq, BitVec.toNat_setWidth, Nat.mod_eq_of_lt]
      · exact hread
      · exact (BitVec.isLt _).trans_le (by norm_num)
    · rw [recoveredChainId_eq]
      exact hread

end Written

/-! ## The whole way -/

theorem convert_eq_ok {request : VerifyProofRequest} {row : VerifyProof}
    (h : request.convert = .ok row) : request.contractChainId < 2 ^ 63 ∧
      request.zkProofId < 2 ^ 63 ∧ row.chainId.toInt = request.contractChainId := by
  unfold VerifyProofRequest.convert at h
  split at h
  · next row' hrow =>
    cases h
    simp only [VerifyProofRequest.row, Option.bind_eq_bind, Option.bind_eq_some_iff,
      Option.pure_def, Option.some.injEq, toI64_eq_some] at hrow
    obtain ⟨chainId, ⟨hchain, hchainId⟩, zkProofId, ⟨hid, -⟩, rfl⟩ := hrow
    exact ⟨hchain, hid, hchainId⟩
  · cases h

theorem exists_convert {request : VerifyProofRequest} (hchain : request.contractChainId < 2 ^ 63)
    (hid : request.zkProofId < 2 ^ 63) : ∃ row, request.convert = .ok row := by
  have hto : ∀ {n : ℕ}, n < 2 ^ 63 → toI64 n = some (Int64.ofNat n) := fun h => if_pos h
  unfold VerifyProofRequest.convert VerifyProofRequest.row
  rw [hto hchain, hto hid]
  exact ⟨_, rfl⟩

/-- A request that reaches the proof has a chain id and a proof id that fit all conversions. -/
theorem lt_of_processRequest {keccak256 : Bytes → Bytes32} {cache : TenantKeyCache L R}
    (hcache : CacheReached cache) {tenants : List (TenantRow L R)} {request : VerifyProofRequest}
    {out : ZkData × Except ExecutionError (List Ciphertext × Bytes)}
    (h : processRequest keccak256 cache tenants request = .ok out) :
    request.contractChainId < 2 ^ 31 ∧ request.zkProofId < 2 ^ 63 := by
  simp only [processRequest, bind_eq_ok, mapError_eq_ok] at h
  obtain ⟨row, hrow, ⟨keys, cache'⟩, hfetch, -⟩ := h
  obtain ⟨-, hid, hchain⟩ := convert_eq_ok hrow
  have hlt := (chainId_of_fetch hcache hfetch).2.2
  exact ⟨by omega, hid⟩

/-- A request comes through without a panic or a failed conversion, and its chain id is written as
the SDK and the contracts write it, exactly if the chain id is less than `2 ^ 31` and the proof id
less than `2 ^ 63`. The tenants have the chain, as far as its id fits their column. -/
theorem processRequest_agrees_iff (keccak256 : Bytes → Bytes32) {chainId : ℕ}
    {cache : TenantKeyCache L R} (hcache : CacheReached cache) {tenants : List (TenantRow L R)}
    (htenant : chainId < 2 ^ 63 → ∃ row ∈ tenants, row.chainId.toInt = chainId)
    (hkeys : ∀ row ∈ tenants, row.chainId.toInt = chainId → row.keys.isSome)
    {request : VerifyProofRequest} (hrequest : request.contractChainId = chainId) :
    (∃ aux outcome, processRequest keccak256 cache tenants request = .ok (aux, outcome) ∧
        ChainIdAgrees chainId aux outcome) ↔
      chainId < 2 ^ 31 ∧ request.zkProofId < 2 ^ 63 := by
  subst hrequest
  constructor
  · rintro ⟨aux, outcome, hprocess, -⟩
    exact lt_of_processRequest hcache hprocess
  · rintro ⟨hlt, hid⟩
    obtain ⟨row, hrow⟩ := exists_convert (by omega) hid
    obtain ⟨-, -, hchain⟩ := convert_eq_ok hrow
    obtain ⟨tenant, hmem, htenant⟩ := htenant (by omega)
    obtain ⟨keys, cache', hfetch⟩ := exists_fetch cache
      (by omega : row.chainId.toInt < 2 ^ 31) ⟨tenant, hmem, Int64.toInt_inj.mp (htenant.trans hchain.symm)⟩
      fun row' hmem' hrow' => hkeys row' hmem' (hrow' ▸ hchain)
    have hkeysChain := (chainId_of_fetch hcache hfetch).1
    refine ⟨keys.aux row, verifyProof keccak256 keys.keys row.zkProofId.toInt (keys.aux row)
      row.input, ?_, chainIdAgrees_of_toInt ?_ (by omega)⟩
    · simp only [processRequest, bind_eq_ok, mapError_eq_ok, pure_eq_ok]
      exact ⟨row, hrow, (keys, cache'), hfetch, rfl⟩
    · rw [FetchTenantKeyResult.aux, hkeysChain, hchain]

/-! ### Chains that the gateway accepts -/

def chainIdLibrary : ProofLibrary Unit Unit where
  safeDeserializeConformant _ := .ok ()
  len _ := 0
  verifyAndExpand _ _ := .ok []
  addReRandomizationMetadata ct _ := ct
  compress _ := []

def sampleTenant (chainId : Int64) (h : 0 ≤ chainId.toInt) : TenantRow Unit Unit where
  tenantId := 1
  chainId := chainId
  chainId_nonneg := h
  aclContractAddress := 7
  keys := some chainIdLibrary

def sampleChainRequest (chainId : ℕ) : VerifyProofRequest where
  zkProofId := 1
  contractChainId := chainId
  contractAddress := 8
  userAddress := 9
  ciphertextWithZKProof := []
  extraData := []

/-- A chain id that fits everywhere. -/
theorem sampleChain_agrees : ∃ aux outcome, processRequest (fun _ => 0) Cache.empty
    [sampleTenant 11155111 (by decide)] (sampleChainRequest 11155111) = .ok (aux, outcome) ∧
      ChainIdAgrees 11155111 aux outcome :=
  (processRequest_agrees_iff (fun _ => 0) .empty (fun _ => ⟨_, List.mem_singleton_self _, by decide⟩)
    (by decide) rfl).mpr ⟨by decide, by decide⟩

/-- The gateway accepts a chain id of more than 31 bits, and the keys of its tenant cannot be
queried. -/
theorem sampleChain_not_agrees :
    (addHostChain 1 11297108109 (GatewayConfigStorage.emptyProxy 1)).isOk = true ∧
      ¬ ∃ aux outcome, processRequest (fun _ => 0) Cache.empty
        [sampleTenant 11297108109 (by decide)] (sampleChainRequest 11297108109) =
          .ok (aux, outcome) ∧ ChainIdAgrees 11297108109 aux outcome := by
  refine ⟨by decide +kernel, ?_⟩
  rintro ⟨aux, outcome, hprocess, -⟩
  exact absurd (lt_of_processRequest .empty hprocess).1 (by decide)

end Fhevm.ZkProof
