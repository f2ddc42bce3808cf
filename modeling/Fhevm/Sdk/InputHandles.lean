import Fhevm.Sdk.Eip712
import Fhevm.ZkProof.Verifier

/-!
# Handles of encrypted inputs

The Rust SDK computes the handles of a list of inputs on its own, so that an application knows
them before the coprocessors do. It writes the same metadata as the worker, but hashes without
the domain separators of the worker.

## Main definitions

* `EncryptionType` — the types of the SDK, with their bit widths.
* `computeHandles` — the handles that the SDK announces.
* `AnnouncesWorkerHandles` — the worker computes the same handles.
* `announcesWorkerHandles_iff` — which lists that is true of.
-/

namespace Fhevm.Sdk

open Foundation Contract Host ZkProof

/-! ## Types -/

inductive EncryptionType
  | bit1 | bit8 | bit16 | bit32 | bit64 | bit128 | bit160 | bit256
deriving DecidableEq, Repr

namespace EncryptionType

def bitWidth : EncryptionType → Nat
  | bit1 => 1
  | bit8 => 8
  | bit16 => 16
  | bit32 => 32
  | bit64 => 64
  | bit128 => 128
  | bit160 => 160
  | bit256 => 256

/-- The kind of the values that the builder adds to its list for a type. -/
def kind : EncryptionType → FheType
  | bit1 => .bool
  | bit8 => .uint8
  | bit16 => .uint16
  | bit32 => .uint32
  | bit64 => .uint64
  | bit128 => .uint128
  | bit160 => .uint160
  | bit256 => .uint256

end EncryptionType

/-! ## What the SDK announces -/

def CIPHERTEXT_VERSION : UInt8 := 0

def chainIdToBytes (chainId : UInt64) : Bytes :=
  let buffer := List.replicate 32 0
  let chainIdBytes := BigEndian.encode 8 chainId.toNat
  BigEndian.copyFromSlice buffer (buffer.length - chainIdBytes.length) chainIdBytes

/-- The discriminant of a bit width. -/
def encryptionType : Nat → SdkResult UInt8
  | 1 => .ok 0
  | 8 => .ok 2
  | 16 => .ok 3
  | 32 => .ok 4
  | 64 => .ok 5
  | 128 => .ok 6
  | 160 => .ok 7
  | 256 => .ok 8
  | bitWidth => .error (.invalidParams s!"Unsupported bit width: {bitWidth}")

/-- What is hashed for the handle at an index. -/
def hashInput (ciphertextHash : Bytes) (index : Nat) (acl : Address) (chainIdBytes : Bytes) :
    Bytes :=
  ciphertextHash ++ [UInt8.ofNat index] ++ addressBytes acl ++ chainIdBytes

section Handles

variable (keccak256 : Bytes → Bytes32)

def computeHandle (ciphertextHash : Bytes) (aclContractAddress : Address) (chainIdBytes : Bytes)
    (ciphertextVersion : UInt8) (index bitWidth : Nat) : SdkResult Bytes := do
  let encryptionType ← encryptionType bitWidth
  let handle :=
    wordBytes (keccak256 (hashInput ciphertextHash index aclContractAddress chainIdBytes))
  let handle := BigEndian.copyFromSlice handle 21 [UInt8.ofNat index]
  let handle := BigEndian.copyFromSlice handle 22 ((chainIdBytes.drop 24).take 8)
  let handle := BigEndian.copyFromSlice handle 30 [encryptionType]
  return BigEndian.copyFromSlice handle 31 [ciphertextVersion]

def computeHandles (ciphertext : Bytes) (bitWidths : List Nat) (aclContractAddress : Address)
    (chainId : UInt64) (ciphertextVersion : UInt8) : SdkResult (List Bytes) :=
  let ciphertextHash := wordBytes (keccak256 ciphertext)
  let chainIdBytes := chainIdToBytes chainId
  bitWidths.zipIdx.mapM fun bitWidth =>
    computeHandle keccak256 ciphertextHash aclContractAddress chainIdBytes ciphertextVersion
      bitWidth.2 bitWidth.1

/-- The handles that an application is told for a list of inputs are those of the ciphertexts that
the worker makes of it. -/
def AnnouncesWorkerHandles {L R : Type} (T : ProofLibrary L R) (requestId : Int) (aux : ZkData)
    (ciphertext : Bytes) (types : List EncryptionType) (chainId : UInt64) : Prop :=
  ∃ handles cts blobHash,
    computeHandles keccak256 ciphertext (types.map EncryptionType.bitWidth) aux.aclContractAddress
        chainId CIPHERTEXT_VERSION = .ok handles ∧
      verifyProof keccak256 T requestId aux ciphertext = .ok (cts, blobHash) ∧
      cts.map Ciphertext.handle = handles

end Handles

/-! ## One handle -/

theorem chainIdToBytes_eq (chainId : UInt64) :
    chainIdToBytes chainId = BigEndian.encode 32 chainId.toNat := by
  have hpad := BigEndian.encode_add 24 (n := 8) (v := chainId.toNat)
    (chainId.toNat_lt.trans_eq (by norm_num))
  rw [hpad]
  simp [chainIdToBytes, BigEndian.copyFromSlice]

/-- The discriminant is the number of the kind. -/
theorem encryptionType_bitWidth (type : EncryptionType) :
    encryptionType type.bitWidth = .ok (UInt8.ofNat type.kind.toNat) := by
  cases type <;> rfl

section Handle

variable {keccak256 : Bytes → Bytes32} {ciphertextHash handle : Bytes} {acl : Address}
  {chainId : UInt64} {version : UInt8} {index : Nat} {type : EncryptionType}

/-- A handle is the truncated hash, the index, the chain id, the type and the version. -/
theorem computeHandle_eq (h : computeHandle keccak256 ciphertextHash acl (chainIdToBytes chainId)
    version index type.bitWidth = .ok handle) :
    handle = (wordBytes (keccak256 (hashInput ciphertextHash index acl
        (BigEndian.encode 32 chainId.toNat)))).take 21 ++
      (UInt8.ofNat index :: BigEndian.encode 8 chainId.toNat ++
        [UInt8.ofNat type.kind.toNat, version]) := by
  have hlow : ((chainIdToBytes chainId).drop 24).take 8 = BigEndian.encode 8 chainId.toNat := by
    have hpad := BigEndian.encode_add 24 (n := 8) (v := chainId.toNat)
      (chainId.toNat_lt.trans_eq (by norm_num))
    rw [chainIdToBytes_eq, hpad, List.drop_left' (List.length_replicate ..),
      List.take_of_length_le (by simp)]
  simp only [computeHandle, encryptionType_bitWidth, hlow, bind_eq_ok, pure_eq_ok,
    Except.ok.injEq, exists_eq_left'] at h
  rw [← h, chainIdToBytes_eq]
  exact metadata_eq _ _ _ (length_wordBytes _) (BigEndian.length_encode _ _)

end Handle

/-! ## All handles of a list -/

section List

variable {L R : Type} {keccak256 : Bytes → Bytes32} {T : ProofLibrary L R} {requestId : Int}
  {aux : ZkData} {ciphertext : Bytes} {types : List EncryptionType} {chainId : UInt64}
  {theList : L}

theorem computeHandles_eq_ok {bitWidths : List Nat} {acl : Address} {version : UInt8}
    {handles : List Bytes} :
    computeHandles keccak256 ciphertext bitWidths acl chainId version = .ok handles ↔
      List.Forall₂ (fun bitWidth handle => computeHandle keccak256
        (wordBytes (keccak256 ciphertext)) acl (chainIdToBytes chainId) version bitWidth.2
          bitWidth.1 = .ok handle) bitWidths.zipIdx handles := by
  unfold computeHandles
  exact mapM_eq_ok

/-- The last bytes of the handles agree, from one index on. -/
theorem metadata_agree_from {ciphertextHash blobHash : Bytes} {k : Nat}
    {entries : List (FheType × R)} {expanded : List (SupportedFheCiphertexts R)}
    {handles : List Bytes} {cts : List Ciphertext} (hchain : aux.chainId = chainId.toInt64)
    (hkinds : entries.map Prod.fst = types.map EncryptionType.kind)
    (hexpanded : extractCtList entries = .ok expanded)
    (hhandles : List.Forall₂ (fun bitWidth handle => computeHandle keccak256 ciphertextHash
      aux.aclContractAddress (chainIdToBytes chainId) CIPHERTEXT_VERSION bitWidth.2 bitWidth.1 =
        .ok handle) ((types.map EncryptionType.bitWidth).zipIdx k) handles)
    (hcts : List.Forall₂ (fun ct out => createCiphertext keccak256 T blobHash ct.2 ct.1 aux =
      .ok out) (expanded.zipIdx k) cts) :
    handles.map (List.drop 21) = cts.map fun ct => ct.handle.drop 21 := by
  induction types generalizing k entries expanded handles cts with
  | nil =>
    obtain rfl : entries = [] := by simpa using hkinds
    cases hexpanded
    cases hhandles
    cases hcts
    rfl
  | cons type types ih =>
    cases entries with
    | nil => simp at hkinds
    | cons entry entries =>
      obtain ⟨hkind, hkinds⟩ := List.cons_eq_cons.mp hkinds
      rw [extractCtList, mapM_eq_ok] at hexpanded
      cases hexpanded with
      | cons hfirst hrest =>
        cases hhandles with
        | cons hhandle hhandles =>
          cases hcts with
          | cons hct hcts =>
            have htype : _ = type.kind.toNat :=
              (typeNum_of_extractCt hfirst).trans (congrArg FheType.toNat hkind)
            have htail := ih hkinds (mapM_eq_ok.mpr hrest) hhandles hcts
            have hlength : ∀ hash : Bytes32, ((wordBytes hash).take 21).length = 21 := fun hash =>
              List.length_take_of_le (by simp)
            rw [List.map_cons, List.map_cons, htail, computeHandle_eq hhandle,
              createCiphertext_handle hct, htype, hchain]
            simp [List.drop_left' (hlength _), CIPHERTEXT_VERSION, currentCiphertextVersion]

/-- On a list of at most 255 inputs, the handles of the two differ at most in the hash: they have
the same index, chain, type and version. -/
theorem metadata_agree {handles : List Bytes} {cts : List Ciphertext} {blobHash : Bytes}
    (hchain : aux.chainId = chainId.toInt64)
    (hlist : T.safeDeserializeConformant ciphertext = .ok theList)
    (hlen : T.len theList = types.length)
    (hkinds : ∀ auxDataBytes entries, T.verifyAndExpand theList auxDataBytes = .ok entries →
      entries.map Prod.fst = types.map EncryptionType.kind)
    (hhandles : computeHandles keccak256 ciphertext (types.map EncryptionType.bitWidth)
      aux.aclContractAddress chainId CIPHERTEXT_VERSION = .ok handles)
    (hcts : verifyProof keccak256 T requestId aux ciphertext = .ok (cts, blobHash)) :
    handles.map (List.drop 21) = cts.map fun ct => ct.handle.drop 21 := by
  obtain ⟨expanded, hexpanded, -, hcts⟩ := verifyProof_ok hcts
  have hhandles := computeHandles_eq_ok.mp hhandles
  by_cases hnil : types = []
  · subst hnil
    have hempty : expanded = [] := by
      simp only [tryVerifyAndExpandCiphertextList, bind_eq_ok, hlist, Except.mapError,
        Except.ok.injEq, exists_eq_left', hlen, List.length_nil, if_pos, pure_eq_ok] at hexpanded
      obtain ⟨-, -, rfl⟩ := hexpanded
      rfl
    subst hempty
    cases hhandles
    cases hcts
    rfl
  · have hne : T.len theList ≠ 0 := by simpa [hlen] using hnil
    obtain ⟨auxDataBytes, entries, -, hentries, hextract⟩ :=
      tryVerifyAndExpand_ok hlist hne hexpanded
    exact metadata_agree_from hchain (hkinds _ _ hentries) hextract hhandles hcts

/-- What the two hash for the handles of a list. -/
def hashedForHandles (keccak256 : Bytes → Bytes32) (aux : ZkData) (ciphertext : Bytes)
    (types : List EncryptionType) (chainId : UInt64) : Set Bytes :=
  {b | ∃ i < types.length,
    b = hashInput (wordBytes (keccak256 ciphertext)) i aux.aclContractAddress
        (BigEndian.encode 32 chainId.toNat) ∨
      b = handlePreimage (wordBytes (keccak256 (RAW_CT_HASH_DOMAIN_SEPARATOR ++ ciphertext))) i
        aux.aclContractAddress (BigEndian.encode 32 chainId.toNat)}

/-- As long as the hash, cut to the 21 bytes that a handle keeps, has no collision, the SDK and the
worker agree on the handles of a list exactly if it has none. -/
theorem announcesWorkerHandles_iff (keccak256 : Bytes → Bytes32) (T : ProofLibrary L R)
    (requestId : Int) (aux : ZkData) (ciphertext : Bytes) (types : List EncryptionType)
    (chainId : UInt64) (theList : L) (hchain : chainId.toNat < 2 ^ 63)
    (haux : aux.chainId = chainId.toInt64)
    (hlist : T.safeDeserializeConformant ciphertext = .ok theList)
    (hlen : T.len theList = types.length)
    (hkeccak : Set.InjOn (fun bytes => (wordBytes (keccak256 bytes)).take 21)
      (hashedForHandles keccak256 aux ciphertext types chainId)) :
    AnnouncesWorkerHandles keccak256 T requestId aux ciphertext types chainId ↔ types = [] := by
  have hint : aux.chainId.toInt = chainId.toNat := by
    rw [haux, ← Int64.toInt_toBitVec, UInt64.toBitVec_toInt64]
    exact BitVec.toInt_eq_toNat_of_lt (by rw [UInt64.toNat_toBitVec]; omega)
  constructor
  · rintro ⟨handles, cts, blobHash, hhandles, hverify, hsame⟩
    obtain ⟨expanded, -, hblob, hcts⟩ := verifyProof_ok hverify
    have hhandles := computeHandles_eq_ok.mp hhandles
    cases types with
    | nil => rfl
    | cons type types =>
      cases hhandles with
      | cons hhandle hhandles =>
        cases expanded with
        | nil =>
          cases hcts
          simp at hsame
        | cons first expanded =>
          cases hcts with
          | cons hct hcts =>
            -- both have a first handle, and the strings that are hashed have different lengths
            obtain ⟨hfirst, -⟩ := List.cons_eq_cons.mp hsame
            have hzero : 0 < (type :: types).length := by simp
            have htake := congrArg (List.take 21) hfirst
            rw [createCiphertext_handle hct, computeHandle_eq hhandle, hint, Int.toNat_natCast,
              List.take_left' (List.length_take_of_le (by simp)),
              List.take_left' (List.length_take_of_le (by simp)), hblob] at htake
            have hstring := hkeccak ⟨0, hzero, .inr rfl⟩ ⟨0, hzero, .inl rfl⟩ htake
            have hlength := congrArg List.length hstring
            simp [handlePreimage, hashInput, HANDLE_HASH_DOMAIN_SEPARATOR, addressBytes] at hlength
  · rintro rfl
    exact ⟨[], [], _, computeHandles_eq_ok.mpr .nil, verifyProof_nil (by omega) hlist hlen, rfl⟩

end List

/-! ## One boolean -/

/-- A hash that takes the length into account, and whose first bytes are its last. -/
def sampleInputKeccak (bytes : Bytes) : Bytes32 :=
  let n := BigEndian.decode (1 :: bytes) % 1000003 + 1
  BitVec.ofNat 256 (n * 2 ^ 88 + n)

/-- A list is serialized as the numbers of its kinds. -/
def sampleLibrary : ProofLibrary Bytes Unit where
  safeDeserializeConformant := .ok
  len := List.length
  verifyAndExpand theList _ := .ok <|
    theList.filterMap fun b => (FheType.ofNat? b.toNat).map fun kind => (kind, ())
  addReRandomizationMetadata ct _ := ct
  compress _ := []

def sampleAux : ZkData := ⟨8, 40, 70, 7⟩

theorem oneBoolean_not_announced :
    ¬ AnnouncesWorkerHandles sampleInputKeccak sampleLibrary 1 sampleAux [0] [.bit1] 7 := by
  refine fun h => absurd ((announcesWorkerHandles_iff sampleInputKeccak sampleLibrary 1 sampleAux
    [0] [.bit1] 7 [0] (by decide) (by decide) rfl rfl ?_).mp h) (by decide)
  -- the two strings that are hashed have different first bytes
  have hapart : (wordBytes (sampleInputKeccak (hashInput (wordBytes (sampleInputKeccak [0])) 0 70
      (BigEndian.encode 32 7)))).take 21 ≠
    (wordBytes (sampleInputKeccak (handlePreimage (wordBytes (sampleInputKeccak
      (RAW_CT_HASH_DOMAIN_SEPARATOR ++ [0]))) 0 70 (BigEndian.encode 32 7)))).take 21 := by
    decide +kernel
  rintro a ⟨i, hi, ha⟩ b ⟨j, hj, hb⟩ hab
  obtain rfl : i = 0 := by simpa using hi
  obtain rfl : j = 0 := by simpa using hj
  obtain rfl | rfl := ha <;> obtain rfl | rfl := hb
  · rfl
  · exact absurd hab hapart
  · exact absurd hab.symm hapart
  · rfl

/-- Both succeed on a list of one boolean, but with different handles. -/
theorem oneBoolean_handles :
    ∃ handle ct blobHash,
      computeHandles sampleInputKeccak [0] [1] sampleAux.aclContractAddress 7 CIPHERTEXT_VERSION =
          .ok [handle] ∧
        verifyProof sampleInputKeccak sampleLibrary 1 sampleAux [0] = .ok ([ct], blobHash) ∧
        ct.handle ≠ handle ∧ ct.handle.drop 21 = handle.drop 21 := by
  refine ⟨_, _, _, rfl, rfl, ?_⟩
  decide +kernel

end Fhevm.Sdk
