import Fhevm.Host.Handle
import Fhevm.KmsConnector.KmsRequests

/-!
# What a request carries

An event that is stored, read back and prepared gives a request with the same ids, parameters and
handles. Only the maximum bit length of a CRS is cut to 32 bits.

## Main definitions

* `Emittable` — what the contracts check of the events that they emit.
* `CarriedBy` — a request has the fields of an event.
* `requestOf` — an event is stored, read back and prepared.
* `carriedBy_iff` — the request has the fields of the event if no number is too large.
-/

namespace Fhevm.KmsConnector

open Foundation Host Sdk

namespace GatewayEventKind

/-- The ciphertexts of a decryption are all under one key, and parameters have a known type. -/
def Emittable : GatewayEventKind → Prop
  | publicDecryption _ materials _ | userDecryption _ materials _ _ _ =>
    ∀ m ∈ materials, ∀ m' ∈ materials, m.keyId = m'.keyId
  | prepKeygen _ _ paramsType | crsgen _ _ paramsType | keyReshareSameSet _ _ _ paramsType =>
    (ParamsTypeDb.tryFrom paramsType).isSome
  | keygen _ _ | prssInit _ => True

/-- The maximum bit length of a CRS fits in 32 bits. -/
def FitsU32 : GatewayEventKind → Prop
  | crsgen _ maxBitLength _ => maxBitLength.toNat < 2 ^ 32
  | _ => True

end GatewayEventKind

/-- The ciphertexts are for the handles of the materials, in their order and with their types. -/
def SameHandles (materials : List SnsCiphertextMaterial) (ciphertexts : List TypedCiphertext) :
    Prop :=
  ciphertexts.map (fun c => (c.externalHandle, c.fheType)) =
    materials.map fun m => (wordBytes m.ctHandle, (byteAt m.ctHandle 30).toNat)

/-- The request has the fields of the event. Ids are compared as numbers. -/
def GatewayEventKind.CarriedBy : GatewayEventKind → KmsGrpcRequest → Prop
  | .publicDecryption decryptionId materials extraData, .publicDecryption r =>
    r.requestId.bind decodeRequestId = some decryptionId ∧
      (∀ m ∈ materials, r.keyId.bind decodeRequestId = some m.keyId) ∧
      SameHandles materials r.ciphertexts ∧ r.extraData = extraData
  | .userDecryption decryptionId materials userAddress publicKey extraData, .userDecryption r =>
    r.requestId.bind decodeRequestId = some decryptionId ∧
      (∀ m ∈ materials, r.keyId.bind decodeRequestId = some m.keyId) ∧
      SameHandles materials r.typedCiphertexts ∧ r.extraData = extraData ∧
      clientAddressOf r.clientAddress = some userAddress ∧ r.encKey = publicKey
  | .prepKeygen prepKeygenId _ paramsType, .prepKeygen r =>
    r.requestId.bind decodeRequestId = some prepKeygenId ∧ r.params = paramsType.toNat
  | .keygen prepKeygenId keyId, .keygen r =>
    r.requestId.bind decodeRequestId = some keyId ∧
      r.preprocId.bind decodeRequestId = some prepKeygenId
  | .crsgen crsId maxBitLength paramsType, .crsgen r =>
    r.requestId.bind decodeRequestId = some crsId ∧ r.params = paramsType.toNat ∧
      r.maxNumBits.map UInt32.toNat = some maxBitLength.toNat
  | .prssInit id, .prssInit r => r.requestId.bind decodeRequestId = some id
  | .keyReshareSameSet prepKeygenId keyId keyReshareId paramsType, .keyReshareSameSet r =>
    r.requestId.bind decodeRequestId = some keyReshareId ∧
      r.keyId.bind decodeRequestId = some keyId ∧
      r.preprocId.bind decodeRequestId = some prepKeygenId ∧ r.keyParameters = paramsType.toNat
  | _, _ => False

/-! ## Texts and bytes -/

theorem hexDigit_of_toLower {c : Char} {n : ℕ} (hn : n < 16)
    (h : c.toLower = hexDigits.getD n '0') : Sdk.hexDigit c = some n := by
  rw [Sdk.hexDigit, h]
  interval_cases n <;> rfl

/-- Letters of both cases are decoded. -/
theorem hexDecode_of_toLower {text : List Char} {bytes : Bytes}
    (h : text.map Char.toLower = hexEncode bytes) : hexDecode text = some bytes := by
  induction bytes generalizing text with
  | nil =>
    obtain rfl := List.map_eq_nil_iff.mp h
    rfl
  | cons b bytes ih =>
    have hb : b.toNat < 256 := b.toNat_lt
    have hsplit : 16 * (b.toNat / 16) + b.toNat % 16 = b.toNat := by omega
    change _ = _ :: _ :: hexEncode bytes at h
    obtain ⟨high, text, rfl, hhigh, h⟩ := List.map_eq_cons_iff.mp h
    obtain ⟨low, text, rfl, hlow, h⟩ := List.map_eq_cons_iff.mp h
    rw [hexDecode, hexDigit_of_toLower (by omega) hhigh, hexDigit_of_toLower (by omega) hlow, ih h]
    simp [hsplit]

/-- Digits do not start with a prefix. -/
theorem trimHexPrefix_of_toLower {text : List Char} {bytes : Bytes}
    (h : text.map Char.toLower = hexEncode bytes) : trimHexPrefix text = text := by
  unfold trimHexPrefix
  split
  · next rest =>
    have hx : 'x' ∈ hexEncode bytes := by
      rw [← h]
      simp
    exact absurd (mem_hexDigits_of_hexEncode hx) (by decide)
  · rfl

theorem clientAddressOf_addressText (keccak256 : Bytes → Bytes32) (a : Address) :
    clientAddressOf (addressText keccak256 a) = some a := by
  have hlower := toLower_addressText keccak256 a
  rw [addressText, String.toList_ofList, List.map_cons, List.map_cons] at hlower
  have hdigits := (List.cons.inj (List.cons.inj hlower).2).2
  rw [clientAddressOf, addressText, String.toList_ofList, trimHexPrefix,
    trimHexPrefix_of_toLower hdigits, hexDecode_of_toLower hdigits, Option.bind_eq_bind,
    Option.bind_some, toAddress_addressBytes]

theorem getElem?_wordBytes_type (handle : Bytes32) :
    (wordBytes handle)[30]? = some (UInt8.ofNat (byteAt handle 30).toNat) := by
  have hbyte : (byteAt handle 30).toNat = handle.toNat / 256 % 256 := by
    rw [byteAt, BitVec.extractLsb'_toNat, Nat.shiftRight_eq_div_pow]
  have hpow : 256 ^ (32 - 1 - 30) = 256 := by norm_num
  rw [wordBytes, BigEndian.getElem?_encode (by omega), hbyte, hpow]

theorem maxNumBitsOf_eq (maxBitLength : U256) :
    maxNumBitsOf maxBitLength = some (UInt32.ofNat (maxBitLength.toNat % 2 ^ 32)) := by
  have hlength : 4 ≤ (asLeSlice maxBitLength).length := by simp [asLeSlice]
  have hdecode : LittleEndian.decode ((asLeSlice maxBitLength).take 4) =
      maxBitLength.toNat % 2 ^ 32 := by
    rw [LittleEndian.decode_take hlength, asLeSlice, LittleEndian.decode_encode,
      Nat.mod_mod_of_dvd _ (by norm_num)]
    norm_num
  rw [maxNumBitsOf, hdecode]
  simp [asLeSlice]

/-- The number of bits is that of the event if it fits. -/
theorem maxNumBits_iff {maxBitLength : U256} :
    (maxNumBitsOf maxBitLength).map UInt32.toNat = some maxBitLength.toNat ↔
      maxBitLength.toNat < 2 ^ 32 := by
  rw [maxNumBitsOf_eq, Option.map_some, Option.some.injEq, UInt32.toNat_ofNat']
  omega

/-! ## Ciphertexts -/

section Ciphertexts

variable {L : KmsLibrary} {config : Config} {s3 : S3Answers}

theorem retrieveS3Ciphertext_handle {attempt : ℕ × ℕ} {m : SnsCiphertextMaterial} {url : String}
    {c : TypedCiphertext} (h : retrieveS3Ciphertext L s3 attempt m url = some c) :
    c.externalHandle = wordBytes m.ctHandle ∧ c.fheType = (byteAt m.ctHandle 30).toNat := by
  simp only [retrieveS3Ciphertext, extractFheTypeFromHandle, getElem?_wordBytes_type,
    Option.bind_eq_bind, Option.bind_eq_some_iff, Option.pure_def, Option.some.injEq] at h
  obtain ⟨_, ⟨_, -, _, rfl, _, -, rfl⟩, _, -, _, -, rfl⟩ := h
  rw [UInt8.toNat_ofNat', Nat.mod_eq_of_lt (byteAt m.ctHandle 30).isLt]
  exact ⟨rfl, rfl⟩

theorem retrieveS3CiphertextWithRetry_handle {m : SnsCiphertextMaterial} {c : TypedCiphertext}
    (h : retrieveS3CiphertextWithRetry L config s3 m = some c) :
    c.externalHandle = wordBytes m.ctHandle ∧ c.fheType = (byteAt m.ctHandle 30).toNat := by
  obtain ⟨attempt, -, h⟩ := List.exists_of_findSome?_eq_some h
  obtain ⟨url, -, h⟩ := List.exists_of_findSome?_eq_some h
  exact retrieveS3Ciphertext_handle h

theorem retrieveSnsCiphertextMaterials_handles {materials : List SnsCiphertextMaterial}
    {ciphertexts : List TypedCiphertext}
    (h : retrieveSnsCiphertextMaterials L config s3 materials = some ciphertexts) :
    SameHandles materials ciphertexts := by
  unfold retrieveSnsCiphertextMaterials at h
  induction materials generalizing ciphertexts with
  | nil =>
    obtain rfl := Option.some.inj h
    rfl
  | cons m materials ih =>
    simp only [List.mapM_cons, Option.bind_eq_bind, Option.bind_eq_some_iff, Option.pure_def,
      Option.some.injEq] at h
    obtain ⟨c, hc, rest, hrest, rfl⟩ := h
    obtain ⟨hhandle, htype⟩ := retrieveS3CiphertextWithRetry_handle hc
    have hsame := ih hrest
    simp only [SameHandles] at hsame ⊢
    simp [hhandle, htype, hsame]

theorem prepareCiphertexts_handles {materials : List SnsCiphertextMaterial}
    {ciphertexts : List TypedCiphertext}
    (h : prepareCiphertexts L config s3 materials = some ciphertexts) :
    SameHandles materials ciphertexts := by
  simp only [prepareCiphertexts, Option.bind_eq_bind, Option.bind_eq_some_iff, Option.pure_def,
    Option.some.injEq] at h
  obtain ⟨_, h, _, -, rfl⟩ := h
  exact retrieveSnsCiphertextMaterials_handles h

end Ciphertexts

/-! ## Requests -/

section Requests

variable {L : KmsLibrary} {config : Config} {s3 : S3Answers}

/-- All materials are under the key of the first. -/
theorem keyId_of_head? {materials : List SnsCiphertextMaterial} {first : SnsCiphertextMaterial}
    (hsame : ∀ m ∈ materials, ∀ m' ∈ materials, m.keyId = m'.keyId)
    (hfirst : materials.head? = some first) : ∀ m ∈ materials, first.keyId = m.keyId :=
  hsame first (List.mem_of_head? hfirst)

/-- What is prepared has the fields of the event, except for bits that do not fit. -/
theorem carriedBy_of_prepareRequest {e : GatewayEventKind} {request : KmsGrpcRequest}
    (hemit : e.Emittable) (h : prepareRequest L config s3 e = some request) :
    e.CarriedBy request ↔ e.FitsU32 := by
  cases e with
  | publicDecryption decryptionId materials extraData =>
    simp only [prepareRequest, prepareDecryptionRequest, Option.bind_eq_bind,
      Option.bind_eq_some_iff, Option.pure_def, Option.some.injEq] at h
    obtain ⟨first, hfirst, ciphertexts, hciphertexts, domainMsg, -, rfl⟩ := h
    simp only [GatewayEventKind.CarriedBy, GatewayEventKind.FitsU32, Option.bind_some,
      decodeRequestId_requestIdOf, Option.some.injEq, true_and, and_true, iff_true]
    constructor
    · exact keyId_of_head? hemit hfirst
    · exact prepareCiphertexts_handles hciphertexts
  | userDecryption decryptionId materials userAddress publicKey extraData =>
    simp only [prepareRequest, prepareDecryptionRequest, Option.bind_eq_bind,
      Option.bind_eq_some_iff, Option.pure_def, Option.some.injEq] at h
    obtain ⟨first, hfirst, ciphertexts, hciphertexts, domainMsg, -, -, -, rfl⟩ := h
    simp only [GatewayEventKind.CarriedBy, GatewayEventKind.FitsU32, Option.bind_some,
      decodeRequestId_requestIdOf, clientAddressOf_addressText, Option.some.injEq, true_and,
      and_true, iff_true]
    constructor
    · exact keyId_of_head? hemit hfirst
    · exact prepareCiphertexts_handles hciphertexts
  | prepKeygen prepKeygenId epochId paramsType =>
    obtain rfl := Option.some.inj h
    simp [GatewayEventKind.CarriedBy, GatewayEventKind.FitsU32]
  | keygen prepKeygenId keyId =>
    obtain rfl := Option.some.inj h
    simp [GatewayEventKind.CarriedBy, GatewayEventKind.FitsU32]
  | crsgen crsId maxBitLength paramsType =>
    obtain rfl := Option.some.inj h
    simp only [GatewayEventKind.CarriedBy, GatewayEventKind.FitsU32, Option.bind_some,
      decodeRequestId_requestIdOf, true_and, maxNumBits_iff]
  | prssInit id =>
    obtain rfl := Option.some.inj h
    simp [GatewayEventKind.CarriedBy, GatewayEventKind.FitsU32, preparePrssInitRequest]
  | keyReshareSameSet prepKeygenId keyId keyReshareId paramsType =>
    obtain rfl := Option.some.inj h
    simp [GatewayEventKind.CarriedBy, GatewayEventKind.FitsU32]

variable {B : Bc2wrap} {requests : Requests} {e : GatewayEvent}

/-- The event is stored, read back and prepared. -/
def requestOf (B : Bc2wrap) (L : KmsLibrary) (config : Config) (s3 : S3Answers)
    (requests : Requests) (e : GatewayEvent) : Option KmsGrpcRequest := do
  let stored ← publish B requests e
  let row ← stored.get? e.kind.key
  let event ← row.event B
  prepareRequest L config s3 event.kind

/-- A row that is new is found under its key. -/
theorem get?_publish {row : RequestRow} (hnew : requests.get? e.kind.key = none)
    (hrow : e.row B = some row) : (requests.insert row).get? e.kind.key = some row := by
  obtain ⟨columns, bytes, hcolumns, -, rfl⟩ := row_eq_some.mp hrow
  have hkey : columns.key = e.kind.key := key_of_columns hcolumns
  rw [Table.get?_insert, hnew, Option.none_or, List.find?_singleton]
  simp [RequestRow.key, hkey]

/-- The columns of an event that the contracts emit can be written. -/
theorem exists_columns {e : GatewayEventKind} (hemit : e.Emittable) :
    ∃ columns, e.columns = some columns := by
  cases e with
  | publicDecryption | userDecryption | keygen | prssInit => exact ⟨_, rfl⟩
  | prepKeygen | crsgen | keyReshareSameSet =>
    obtain ⟨p, hp⟩ := Option.isSome_iff_exists.mp hemit
    simp [GatewayEventKind.columns, hp]

/-- An event that the contracts emit can be stored and read back. -/
theorem exists_row (hemit : e.kind.Emittable) (hcontext : B.Keeps e.otlpContext) :
    ∃ row, e.row B = some row ∧ row.event B = some e := by
  obtain ⟨columns, hcolumns⟩ := exists_columns hemit
  obtain ⟨bytes, hbytes, hread⟩ := Option.bind_eq_some_iff.mp hcontext
  refine ⟨{ columns, otlpContext := bytes }, row_eq_some.mpr ⟨_, _, hcolumns, hbytes, rfl⟩, ?_⟩
  simp [RequestRow.event, kind_of_columns hcolumns, hread]

theorem requestOf_eq (hemit : e.kind.Emittable) (hnew : requests.get? e.kind.key = none)
    (hcontext : B.Keeps e.otlpContext) :
    requestOf B L config s3 requests e = prepareRequest L config s3 e.kind := by
  obtain ⟨row, hrow, hevent⟩ := exists_row hemit hcontext
  simp [requestOf, publish, hrow, get?_publish hnew hrow, hevent]

/-- A request that arrives has the fields of its event exactly if the maximum bit length of a CRS
fits in 32 bits. -/
theorem carriedBy_iff (hemit : e.kind.Emittable) (hnew : requests.get? e.kind.key = none)
    (hcontext : B.Keeps e.otlpContext) :
    (∀ s3 request, requestOf B L config s3 requests e = some request → e.kind.CarriedBy request) ↔
      e.kind.FitsU32 := by
  simp only [requestOf_eq hemit hnew hcontext]
  constructor
  · intro h
    obtain ⟨kind, context⟩ := e
    cases kind with
    | crsgen crsId maxBitLength paramsType =>
      -- the request for a CRS needs no ciphertexts
      let s3 : S3Answers := ⟨fun _ => none, fun _ _ => none⟩
      obtain ⟨request, hrequest⟩ : ∃ request, prepareRequest L config s3
          (.crsgen crsId maxBitLength paramsType) = some request := ⟨_, rfl⟩
      exact (carriedBy_of_prepareRequest hemit hrequest).mp (h s3 request hrequest)
    | _ => trivial
  · intro hfits s3 request hrequest
    exact (carriedBy_of_prepareRequest hemit hrequest).mpr hfits

end Requests

/-! ## Samples -/

def emptyRequests : Requests := ⟨[], .nil⟩

/-- The first request for a CRS. -/
def sampleCrsgen (maxBitLength : U256) : GatewayEvent where
  kind := .crsgen (5 <<< 248 + 1) maxBitLength 0
  otlpContext := []

theorem emittable_sampleCrsgen (maxBitLength : U256) :
    (sampleCrsgen maxBitLength).kind.Emittable := rfl

theorem keeps_sampleCrsgen (maxBitLength : U256) :
    sampleBc2wrap.Keeps (sampleCrsgen maxBitLength).otlpContext := rfl

theorem sampleCrsgen_carried : ∃ request,
    requestOf sampleBc2wrap sampleKmsLibrary sampleConfig ⟨fun _ => none, fun _ _ => none⟩
      emptyRequests (sampleCrsgen 2048) = some request ∧
        (sampleCrsgen 2048).kind.CarriedBy request := by
  have hfits : (2048 : U256).toNat < 2 ^ 32 := by decide
  have hemit := emittable_sampleCrsgen 2048
  have hcontext := keeps_sampleCrsgen 2048
  obtain ⟨request, hrequest⟩ : ∃ request, prepareRequest sampleKmsLibrary sampleConfig
      ⟨fun _ => none, fun _ _ => none⟩ (sampleCrsgen 2048).kind = some request := ⟨_, rfl⟩
  have hnew : emptyRequests.get? (sampleCrsgen 2048).kind.key = none := rfl
  have hrequest := (requestOf_eq hemit hnew hcontext).trans hrequest
  exact ⟨request, hrequest, (carriedBy_iff hemit hnew hcontext).mpr hfits _ _ hrequest⟩

/-- The length `2 ^ 32` arrives as zero. -/
theorem sampleCrsgen_truncated : ¬ ∀ e requests s3 request, e.kind.Emittable →
    requests.get? e.kind.key = none → sampleBc2wrap.Keeps e.otlpContext →
    requestOf sampleBc2wrap sampleKmsLibrary sampleConfig s3 requests e = some request →
      e.kind.CarriedBy request := by
  intro h
  have hemit := emittable_sampleCrsgen (2 ^ 32)
  have hcontext := keeps_sampleCrsgen (2 ^ 32)
  let s3 : S3Answers := ⟨fun _ => none, fun _ _ => none⟩
  obtain ⟨request, hrequest⟩ : ∃ request, prepareRequest sampleKmsLibrary sampleConfig s3
      (sampleCrsgen (2 ^ 32)).kind = some request := ⟨_, rfl⟩
  have hcarried := h (sampleCrsgen (2 ^ 32)) emptyRequests s3 request hemit rfl hcontext
    ((requestOf_eq hemit rfl hcontext).trans hrequest)
  have hfits : (2 ^ 32 : U256).toNat < 2 ^ 32 :=
    (carriedBy_of_prepareRequest hemit hrequest).mp hcarried
  exact absurd hfits (by decide)

end Fhevm.KmsConnector
