import Fhevm.Foundation.Table
import Fhevm.Gateway.KMSGeneration
import Fhevm.Sdk.Eip712

/-!
# The keys of a tenant

The gateway listener of a coprocessor downloads the keys and the CRS that the KMS nodes have
agreed on, checks their digests, and writes them to the row of its tenant.

## Main definitions

* `Tenant` — the row of a tenant.
* `activateKey`, `activateCrs` — what an event of the gateway does to it.
* `handleEvent` — either of them, on the events of a log.
-/

namespace Fhevm.GwListener

open Foundation Gateway Sdk

/-! ## Rows -/

/-- A row of `tenants`, as far as keys are concerned. The large object of `sns_pk` stands for the
column that refers to it. -/
structure Tenant where
  tenantId : ℕ
  chainId : ℕ
  pksKey : Bytes := []
  sksKey : Bytes := []
  publicParams : Bytes := []
  snsPk : Bytes := []
  keyId : Bytes := []
deriving DecidableEq, Repr

abbrev Tenants := Table Tenant.tenantId

inductive ActivationError
  | downloadFailed
  | digestMismatch
  | invalidServerKey
  | noTenantFound
  | multipleTenantsFound
  | databaseError
deriving DecidableEq, Repr

/-- The tenant of a chain. -/
def tenantId (tenants : Tenants) (chainId : ℕ) : Except ActivationError ℕ :=
  match tenants.rows.filter fun row => row.chainId = chainId with
  | [] => .error .noTenantFound
  | [row] => .ok row.tenantId
  | _ => .error .multipleTenantsFound

/-! ## Downloads -/

/-- `get_bucket_key` on the bucket of a URL: the first object of the bucket with a suffix. -/
abbrev BucketKeys := String → String → Option Bytes

/-- The buckets are asked in turn, from one that depends on the key. -/
def downloadKeyFromS3 (s3 : BucketKeys) (s3BucketUrls : List String) (keyPathSuffix : String)
    (offsetBucket : ℕ) : Option Bytes :=
  (List.range s3BucketUrls.length).findSome? fun i =>
    s3 (s3BucketUrls.getD ((i + offsetBucket) % s3BucketUrls.length) "") keyPathSuffix

def toKeyPrefix : KeyType → String
  | .serverKey => "/ServerKey"
  | .publicKey => "/PublicKey"

def keyIdToDatabaseBytes (keyId : ℕ) : Bytes := BigEndian.encode 32 keyId

/-- `format!("{:064x}", key_id)` -/
def keyIdToAwsKey (keyId : ℕ) : String := String.ofList (hexEncode (keyIdToDatabaseBytes keyId))

/-- `b"PDAT_KEY"` -/
def DSEP_PUBDATA_KEY : Bytes := [0x50, 0x44, 0x41, 0x54, 0x5f, 0x4b, 0x45, 0x59]

/-- `b"PDAT_CRS"` -/
def DSEP_PUBDATA_CRS : Bytes := [0x50, 0x44, 0x41, 0x54, 0x5f, 0x43, 0x52, 0x53]

/-- What the listener uses of libraries. -/
structure KeyLibrary where
  /-- The first 32 bytes of the output of the hash function. -/
  shake256 : Bytes → Bytes
  extractServerKeyWithoutNs : Bytes → Option Bytes

variable (K : KeyLibrary)

def KeyLibrary.digestKey (bytes : Bytes) : Bytes := K.shake256 (DSEP_PUBDATA_KEY ++ bytes)

def KeyLibrary.digestCrs (bytes : Bytes) : Bytes := K.shake256 (DSEP_PUBDATA_CRS ++ bytes)

/-- One key of an event, with its index. -/
def downloadKey (s3 : BucketKeys) (urls : List String) (keyId : ℕ) (key : KeyDigest × ℕ) :
    Except ActivationError (KeyType × Bytes) :=
  match downloadKeyFromS3 s3 urls (toKeyPrefix key.1.keyType ++ "/" ++ keyIdToAwsKey keyId) key.2 with
  | none => .error .downloadFailed
  | some bytes => do
    require (K.digestKey bytes = key.1.digest) .digestMismatch
    return (key.1.keyType, bytes)

def downloadKeys (s3 : BucketKeys) (urls : List String) (keyId : ℕ) (digests : List KeyDigest) :
    Except ActivationError (List (KeyType × Bytes)) :=
  digests.zipIdx.mapM (downloadKey K s3 urls keyId)

/-! ## Events -/

/-- The columns that a key is written to. The server key is also kept without its parts for noise
squashing. -/
def Tenant.setKey (row : Tenant) (keyId : Bytes) (key : KeyType × Bytes) (reduced : Bytes) : Tenant :=
  match key.1 with
  | .serverKey => { row with snsPk := key.2, sksKey := reduced, keyId }
  | .publicKey => { row with pksKey := key.2, keyId }

theorem Tenant.tenantId_setKey (row : Tenant) (keyId : Bytes) (key : KeyType × Bytes)
    (reduced : Bytes) : (row.setKey keyId key reduced).tenantId = row.tenantId := by
  unfold setKey
  cases key.1 <;> rfl

theorem Tenant.chainId_setKey (row : Tenant) (keyId : Bytes) (key : KeyType × Bytes)
    (reduced : Bytes) : (row.setKey keyId key reduced).chainId = row.chainId := by
  unfold setKey
  cases key.1 <;> rfl

/-- The server key without its parts for noise squashing; there is nothing to do for others. -/
def reducedKeyBytes : KeyType × Bytes → Except ActivationError Bytes
  | (.serverKey, bytes) => (K.extractServerKeyWithoutNs bytes).elim (.error .invalidServerKey) .ok
  | (.publicKey, _) => .ok []

def updateTenantKey (tenantId chainId : ℕ) (keyId : Bytes) (tenants : Tenants)
    (key : KeyType × Bytes) : Except ActivationError Tenants := do
  let reduced ← reducedKeyBytes K key
  require (∃ row ∈ tenants.rows, row.tenantId = tenantId ∧ row.chainId = chainId) .noTenantFound
  return tenants.update (fun row => row.tenantId = tenantId ∧ row.chainId = chainId)
    (fun row => row.setKey keyId key reduced) fun row => row.tenantId_setKey ..

def updateTenantCrs (tenantId chainId : ℕ) (tenants : Tenants) (bytes : Bytes) :
    Except ActivationError Tenants := do
  require (∃ row ∈ tenants.rows, row.tenantId = tenantId ∧ row.chainId = chainId) .noTenantFound
  return tenants.update (fun row => row.tenantId = tenantId ∧ row.chainId = chainId)
    (fun row => { row with publicParams := bytes }) fun _ => rfl

/-- An event as the listener finds it: what the buckets have then, and whether the transaction
fails. -/
structure Delivery where
  event : KMSGenerationEvent
  s3 : BucketKeys
  databaseFails : Bool := false

/-- The keys are written in one transaction, after all of them have been checked. -/
def activateKey (hostChainId : ℕ) (d : Delivery) (keyId : ℕ) (urls : List String)
    (digests : List KeyDigest) (tenants : Tenants) : Except ActivationError Tenants := do
  let keys ← downloadKeys K d.s3 urls keyId digests
  let tenantId ← tenantId tenants hostChainId
  require (d.databaseFails = false) .databaseError
  keys.foldlM (updateTenantKey K tenantId hostChainId (keyIdToDatabaseBytes keyId)) tenants

def activateCrs (hostChainId : ℕ) (d : Delivery) (crsId : ℕ) (urls : List String)
    (digest : Bytes) (tenants : Tenants) : Except ActivationError Tenants :=
  match downloadKeyFromS3 d.s3 urls ("/CRS/" ++ keyIdToAwsKey crsId) 0 with
  | none => .error .downloadFailed
  | some bytes => do
    require (K.digestCrs bytes = digest) .digestMismatch
    let tenantId ← tenantId tenants hostChainId
    require (d.databaseFails = false) .databaseError
    updateTenantCrs tenantId hostChainId tenants bytes

/-- Other events of the contract are of no interest. -/
def handleEvent (hostChainId : ℕ) (d : Delivery) (tenants : Tenants) :
    Except ActivationError Tenants :=
  match d.event with
  | .activateKey keyId urls digests => activateKey K hostChainId d keyId urls digests tenants
  | .activateCrs crsId urls digest => activateCrs K hostChainId d crsId urls digest tenants
  | _ => .ok tenants

/-! ## Samples -/

/-- Hashes are not compressed, and server keys are not reduced. -/
def sampleLibrary : KeyLibrary where
  shake256 := id
  extractServerKeyWithoutNs := some

/-- The row that is set up for the tenant has no keys. -/
def sampleSetup : Tenants := ⟨[{ tenantId := 1, chainId := 12345 }], by decide⟩

end Fhevm.GwListener
