import Fhevm.KmsConnector.KmsRequests

/-!
# The responses of the KMS core

A worker stores what the KMS core answers, in one table for each of five kinds, and thereby removes
the request. The transaction sender reads the rows back.

## Main definitions

* `KmsGrpcResponse`, `KmsGrpcResponse.process` — an answer, and the response made of it.
* `ResponseRow`, `Responses` — the rows of the five tables.
* `publishResponse` — a worker stores a response.
* `ResponseRow.response` — the transaction sender reads a row.
* `markResponseAsPending`, `removeResponse` — a row is released, or removed.
-/

namespace Fhevm.KmsConnector

open Foundation Host Sdk

/-! ## Answers -/

structure TypedPlaintext where
  bytes : Bytes
  fheType : ℤ
deriving DecidableEq, Repr

/-- What the worker gets for a request. The payloads of user decryptions are only passed on. -/
inductive KmsGrpcResponse
  | publicDecryption (decryptionId : U256) (payload : Option (List TypedPlaintext))
      (externalSignature extraData : Bytes)
  | userDecryption (decryptionId : U256) (payload : Option Bytes)
      (externalSignature extraData : Bytes)
  | prepKeygen (preprocessingId : Option RequestId) (externalSignature : Bytes)
  | keygen (requestId : Option RequestId) (keyDigests : List (String × Bytes))
      (externalSignature : Bytes)
  | crsgen (requestId : Option RequestId) (crsDigest externalSignature : Bytes)
  | noResponseExpected
deriving DecidableEq, Repr

inductive KeyType
  | serverKey
  | publicKey
deriving DecidableEq, Repr

def KeyType.fromStr : String → Option KeyType
  | "ServerKey" => some serverKey
  | "PublicKey" => some publicKey
  | _ => none

structure KeyDigestDbItem where
  keyType : KeyType
  digest : Bytes
deriving DecidableEq, Repr

inductive KmsResponseKind
  | publicDecryption (decryptionId : U256) (decryptedResult signature extraData : Bytes)
  | userDecryption (decryptionId : U256) (userDecryptedShares signature extraData : Bytes)
  | prepKeygen (prepKeygenId : U256) (signature : Bytes)
  | keygen (keyId : U256) (keyDigests : List KeyDigestDbItem) (signature : Bytes)
  | crsgen (crsId : U256) (crsDigest signature : Bytes)
deriving DecidableEq, Repr

structure KmsResponse where
  kind : KmsResponseKind
  otlpContext : PropagationContext
deriving DecidableEq, Repr

/-- The libraries that encode payloads. -/
structure PayloadLibrary where
  abiEncodePlaintexts : List TypedPlaintext → Option Bytes
  serialize : Bytes → Option Bytes

/-- `U256::try_from_be_slice` -/
def tryFromBeSlice (bytes : Bytes) : Option U256 := do
  guard (bytes.length ≤ 32)
  return BitVec.ofNat 256 (BigEndian.decode bytes)

/-- An id in an answer. -/
def answeredId (requestId : Option RequestId) : Option U256 := do
  let requestId ← requestId
  let bytes ← hexDecode requestId.toList
  tryFromBeSlice bytes

def keyDigest (digest : String × Bytes) : Option KeyDigestDbItem := do
  let keyType ← KeyType.fromStr digest.1
  return { keyType, digest := digest.2 }

/-- `KmsResponseKind::process` -/
def KmsGrpcResponse.process (P : PayloadLibrary) : KmsGrpcResponse → Option KmsResponseKind
  | publicDecryption decryptionId payload externalSignature extraData => do
    let plaintexts ← payload
    let decryptedResult ← P.abiEncodePlaintexts plaintexts
    return .publicDecryption decryptionId decryptedResult externalSignature extraData
  | userDecryption decryptionId payload externalSignature extraData => do
    let payload ← payload
    let userDecryptedShares ← P.serialize payload
    return .userDecryption decryptionId userDecryptedShares externalSignature extraData
  | prepKeygen preprocessingId externalSignature => do
    let prepKeygenId ← answeredId preprocessingId
    return .prepKeygen prepKeygenId externalSignature
  | keygen requestId keyDigests externalSignature => do
    let keyId ← answeredId requestId
    let keyDigests ← keyDigests.mapM keyDigest
    return .keygen keyId keyDigests externalSignature
  | crsgen requestId crsDigest externalSignature => do
    let crsId ← answeredId requestId
    return .crsgen crsId crsDigest externalSignature
  | noResponseExpected => none

/-- The answers that the client gives to a request. The id of a decryption is that of its request. -/
def KmsGrpcRequest.answeredBy : KmsGrpcRequest → KmsGrpcResponse → Bool
  | .publicDecryption request, .publicDecryption decryptionId _ _ _ =>
    decide (request.requestId.bind decodeRequestId = some decryptionId)
  | .userDecryption request, .userDecryption decryptionId _ _ _ =>
    decide (request.requestId.bind decodeRequestId = some decryptionId)
  | .prepKeygen _, .prepKeygen _ _ | .keygen _, .keygen _ _ _ | .crsgen _, .crsgen _ _ _
  | .prssInit _, .noResponseExpected | .keyReshareSameSet _, .noResponseExpected => true
  | _, _ => false

/-! ## Rows -/

inductive ResponseTable
  | publicDecryptionResponses
  | userDecryptionResponses
  | prepKeygenResponses
  | keygenResponses
  | crsgenResponses
deriving DecidableEq, Repr

/-- The columns of the tables, but for those that they all have. -/
inductive ResponseColumns
  | publicDecryptionResponses (decryptionId decryptedResult signature extraData : Bytes)
  | userDecryptionResponses (decryptionId userDecryptedShares signature extraData : Bytes)
  | prepKeygenResponses (prepKeygenId signature : Bytes)
  | keygenResponses (keyId : Bytes) (keyDigests : List KeyDigestDbItem) (signature : Bytes)
  | crsgenResponses (crsId crsDigest signature : Bytes)
deriving DecidableEq, Repr

abbrev ResponseKey := ResponseTable × Bytes

def ResponseColumns.key : ResponseColumns → ResponseKey
  | .publicDecryptionResponses decryptionId _ _ _ => (.publicDecryptionResponses, decryptionId)
  | .userDecryptionResponses decryptionId _ _ _ => (.userDecryptionResponses, decryptionId)
  | .prepKeygenResponses prepKeygenId _ => (.prepKeygenResponses, prepKeygenId)
  | .keygenResponses keyId _ _ => (.keygenResponses, keyId)
  | .crsgenResponses crsId _ _ => (.crsgenResponses, crsId)

structure ResponseRow where
  columns : ResponseColumns
  otlpContext : Bytes
  underProcess : Bool := false
deriving DecidableEq, Repr

def ResponseRow.key (row : ResponseRow) : ResponseKey := row.columns.key

abbrev Responses := Table ResponseRow.key

/-- The table of the requests that a table of responses belongs to. -/
def ResponseTable.requests : ResponseTable → RequestTable
  | publicDecryptionResponses => .publicDecryptionRequests
  | userDecryptionResponses => .userDecryptionRequests
  | prepKeygenResponses => .prepKeygenRequests
  | keygenResponses => .keygenRequests
  | crsgenResponses => .crsgenRequests

/-- The request with the id of a response. -/
def requestKey (key : ResponseKey) : RequestKey := (key.1.requests, key.2)

theorem requestKey_injective : Function.Injective requestKey := by
  rintro ⟨table, id⟩ ⟨table', id'⟩ h
  obtain ⟨htable, rfl⟩ := Prod.mk.inj h
  cases table <;> cases table' <;> first | rfl | cases htable

/-! ## Statements -/

/-- What the publisher puts into the columns. -/
def KmsResponseKind.columns : KmsResponseKind → ResponseColumns
  | .publicDecryption decryptionId decryptedResult signature extraData =>
    .publicDecryptionResponses (asLeSlice decryptionId) decryptedResult signature extraData
  | .userDecryption decryptionId userDecryptedShares signature extraData =>
    .userDecryptionResponses (asLeSlice decryptionId) userDecryptedShares signature extraData
  | .prepKeygen prepKeygenId signature => .prepKeygenResponses (asLeSlice prepKeygenId) signature
  | .keygen keyId keyDigests signature => .keygenResponses (asLeSlice keyId) keyDigests signature
  | .crsgen crsId crsDigest signature => .crsgenResponses (asLeSlice crsId) crsDigest signature

/-- `from_public_decryption_row` and the others, but for the context. -/
def ResponseColumns.kind : ResponseColumns → Option KmsResponseKind
  | .publicDecryptionResponses decryptionId decryptedResult signature extraData => do
    let decryptionId ← fromLeBytes decryptionId
    return .publicDecryption decryptionId decryptedResult signature extraData
  | .userDecryptionResponses decryptionId userDecryptedShares signature extraData => do
    let decryptionId ← fromLeBytes decryptionId
    return .userDecryption decryptionId userDecryptedShares signature extraData
  | .prepKeygenResponses prepKeygenId signature => do
    let prepKeygenId ← fromLeBytes prepKeygenId
    return .prepKeygen prepKeygenId signature
  | .keygenResponses keyId keyDigests signature => do
    let keyId ← fromLeBytes keyId
    return .keygen keyId keyDigests signature
  | .crsgenResponses crsId crsDigest signature => do
    let crsId ← fromLeBytes crsId
    return .crsgen crsId crsDigest signature

/-- The key of the row that the response is stored under, released or removed. -/
def KmsResponseKind.key : KmsResponseKind → ResponseKey
  | .publicDecryption decryptionId _ _ _ => (.publicDecryptionResponses, asLeSlice decryptionId)
  | .userDecryption decryptionId _ _ _ => (.userDecryptionResponses, asLeSlice decryptionId)
  | .prepKeygen prepKeygenId _ => (.prepKeygenResponses, asLeSlice prepKeygenId)
  | .keygen keyId _ _ => (.keygenResponses, asLeSlice keyId)
  | .crsgen crsId _ _ => (.crsgenResponses, asLeSlice crsId)

theorem key_columns (kind : KmsResponseKind) : kind.columns.key = kind.key := by
  cases kind <;> rfl

/-- A response is read back as it was. -/
theorem kind_columns (kind : KmsResponseKind) : kind.columns.kind = some kind := by
  cases kind <;> simp [KmsResponseKind.columns, ResponseColumns.kind]

/-- A row is read as a response with its key. -/
theorem key_of_responseKind {columns : ResponseColumns} {kind : KmsResponseKind}
    (h : columns.kind = some kind) : kind.key = columns.key := by
  cases columns <;>
    simp only [ResponseColumns.kind, Option.bind_eq_bind, Option.bind_eq_some_iff, Option.pure_def,
      Option.some.injEq] at h <;>
    obtain ⟨id, hid, rfl⟩ := h <;>
    simp [KmsResponseKind.key, ResponseColumns.key, asLeSlice_of_fromLeBytes hid]

/-- `mark_associated_event_as_pending` -/
def markAssociatedEventAsPending (requests : Requests) (kind : KmsResponseKind) : Requests :=
  markAsPending requests (requestKey kind.key)

def markResponseAsPending (responses : Responses) (key : ResponseKey) : Responses :=
  responses.update (fun row => row.key = key) (fun row => { row with underProcess := false })
    fun _ => rfl

def removeResponse (responses : Responses) (key : ResponseKey) : Responses :=
  responses.delete fun row => row.key = key

section Statements

variable (B : Bc2wrap)

def KmsResponse.row (response : KmsResponse) : Option ResponseRow := do
  let otlpContext ← B.serialize response.otlpContext
  return { columns := response.kind.columns, otlpContext }

def ResponseRow.response (row : ResponseRow) : Option KmsResponse := do
  let otlpContext ← B.deserialize row.otlpContext
  let kind ← row.columns.kind
  return { kind, otlpContext }

/-- A response that is stored already stays as it is. A trigger removes the request of one that is
inserted. -/
def publishResponse (requests : Requests) (responses : Responses) (response : KmsResponse) :
    Option (Requests × Responses) := do
  let row ← response.row B
  match responses.get? row.key with
  | some _ => return (requests, responses)
  | none => return (deleteFromDb requests (requestKey row.key), responses.insert row)

variable {B}

theorem row_eq_some_iff {response : KmsResponse} {row : ResponseRow} :
    response.row B = some row ↔ ∃ bytes, B.serialize response.otlpContext = some bytes ∧
      row = { columns := response.kind.columns, otlpContext := bytes, underProcess := false } := by
  simp only [KmsResponse.row, Option.bind_eq_bind, Option.bind_eq_some_iff, Option.pure_def,
    Option.some.injEq]
  grind

/-- A response that is published is stored under its key, or was already. -/
theorem publishResponse_eq {requests requests' : Requests} {responses responses' : Responses}
    {response : KmsResponse}
    (h : publishResponse B requests responses response = some (requests', responses')) :
    ∃ row, row.key = response.kind.key ∧ row.underProcess = false ∧
      ((∃ stored, responses.get? response.kind.key = some stored ∧ requests' = requests ∧
          responses' = responses) ∨
        (responses.get? response.kind.key = none ∧
          requests' = deleteFromDb requests (requestKey response.kind.key) ∧
            responses' = responses.insert row)) := by
  obtain ⟨row, hrow, h⟩ := Option.bind_eq_some_iff.mp h
  obtain ⟨bytes, -, rfl⟩ := row_eq_some_iff.mp hrow
  have hkey := key_columns response.kind
  refine ⟨{ columns := response.kind.columns, otlpContext := bytes }, hkey, rfl, ?_⟩
  simp only [ResponseRow.key, hkey] at h
  split at h
  · next stored hstored =>
    cases h
    exact .inl ⟨stored, hstored, rfl, rfl⟩
  · next hnone =>
    cases h
    exact .inr ⟨hnone, rfl, rfl⟩

theorem key_of_response {row : ResponseRow} {response : KmsResponse}
    (h : row.response B = some response) : response.kind.key = row.key := by
  simp only [ResponseRow.response, Option.bind_eq_bind, Option.bind_eq_some_iff, Option.pure_def,
    Option.some.injEq] at h
  obtain ⟨context, -, kind, hkind, rfl⟩ := h
  exact key_of_responseKind hkind

end Statements

end Fhevm.KmsConnector
