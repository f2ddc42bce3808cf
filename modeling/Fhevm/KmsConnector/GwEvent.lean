import Fhevm.Foundation.BigEndian
import Fhevm.Foundation.Table
import Fhevm.Host.ACL

/-!
# The requests in the database of a KMS connector

The listeners of a connector store what the gateway requests, in one table for each of seven kinds,
and its workers read the rows back. Numbers are stored least significant byte first.

## Main definitions

* `GatewayEventKind`, `GatewayEvent` — a request of the gateway, and its trace context.
* `RequestRow`, `Requests` — the rows of the seven tables.
* `publish` — a listener stores an event.
* `RequestRow.event` — a worker reads a row.
* `markAsPending`, `deleteFromDb` — a row is released, or removed.
-/

namespace Fhevm.KmsConnector

open Foundation Host

/-! ## Values in columns -/

abbrev U256 := BitVec 256

def asLeSlice (x : U256) : Bytes := LittleEndian.encode 32 x.toNat

/-- `U256::from_le_bytes` of a column with 32 bytes. -/
def fromLeBytes (bytes : Bytes) : Option U256 := do
  guard (bytes.length = 32)
  return BitVec.ofNat 256 (LittleEndian.decode bytes)

/-- A column with `[u8; 32]`. -/
def toBytes32 (bytes : Bytes) : Option Bytes32 := do
  guard (bytes.length = 32)
  return BitVec.ofNat 256 (BigEndian.decode bytes)

/-- A column with `[u8; 20]`. -/
def toAddress (bytes : Bytes) : Option Address := do
  guard (bytes.length = 20)
  return BitVec.ofNat 160 (BigEndian.decode bytes)

@[simp] theorem fromLeBytes_asLeSlice (x : U256) : fromLeBytes (asLeSlice x) = some x := by
  have hlt : x.toNat < 256 ^ 32 := x.isLt.trans_eq (by norm_num)
  rw [fromLeBytes, asLeSlice, LittleEndian.decode_encode, Nat.mod_eq_of_lt hlt]
  simp

@[simp] theorem toBytes32_wordBytes (x : Bytes32) : toBytes32 (wordBytes x) = some x := by
  simp [toBytes32]

@[simp] theorem toAddress_addressBytes (a : Address) : toAddress (addressBytes a) = some a := by
  have hlt : a.toNat < 256 ^ 20 := a.isLt.trans_eq (by norm_num)
  rw [toAddress, addressBytes, BigEndian.decode_encode, Nat.mod_eq_of_lt hlt]
  simp

theorem asLeSlice_of_fromLeBytes {bytes : Bytes} {x : U256} (h : fromLeBytes bytes = some x) :
    asLeSlice x = bytes := by
  simp only [fromLeBytes, Option.bind_eq_bind, Option.bind_eq_some_iff, Option.guard_eq_some',
    Option.pure_def, Option.some.injEq] at h
  obtain ⟨_, hlength, rfl⟩ := h
  have hlt : LittleEndian.decode bytes < 2 ^ 256 := by
    have := BigEndian.decode_lt bytes.reverse
    rw [List.length_reverse, hlength] at this
    exact this.trans_eq (by norm_num)
  rw [asLeSlice, BitVec.toNat_ofNat, Nat.mod_eq_of_lt hlt, ← hlength]
  exact LittleEndian.encode_decode bytes

theorem asLeSlice_injective : Function.Injective asLeSlice := by
  intro x y h
  have hread := congrArg fromLeBytes h
  rwa [fromLeBytes_asLeSlice, fromLeBytes_asLeSlice, Option.some.injEq] at hread

inductive ParamsTypeDb
  | default
  | test
deriving DecidableEq, Repr

namespace ParamsTypeDb

def toU8 : ParamsTypeDb → UInt8
  | default => 0
  | test => 1

def tryFrom (value : UInt8) : Option ParamsTypeDb :=
  if value = default.toU8 then some default
  else if value = test.toU8 then some test
  else none

theorem toU8_of_tryFrom {value : UInt8} {p : ParamsTypeDb} (h : tryFrom value = some p) :
    p.toU8 = value := by
  unfold tryFrom at h
  split_ifs at h with hdefault htest
  · obtain rfl := Option.some.inj h
    exact hdefault.symm
  · obtain rfl := Option.some.inj h
    exact htest.symm

end ParamsTypeDb

structure SnsCiphertextMaterial where
  ctHandle : Bytes32
  keyId : U256
  snsCiphertextDigest : Bytes32
  coprocessorTxSenderAddresses : List Address
deriving DecidableEq, Repr

structure SnsCiphertextMaterialDbItem where
  ctHandle : Bytes
  keyId : Bytes
  snsCiphertextDigest : Bytes
  coprocessorTxSenderAddresses : List Bytes
deriving DecidableEq, Repr

def SnsCiphertextMaterial.dbItem (m : SnsCiphertextMaterial) : SnsCiphertextMaterialDbItem where
  ctHandle := wordBytes m.ctHandle
  keyId := asLeSlice m.keyId
  snsCiphertextDigest := wordBytes m.snsCiphertextDigest
  coprocessorTxSenderAddresses := m.coprocessorTxSenderAddresses.map addressBytes

def SnsCiphertextMaterialDbItem.material (item : SnsCiphertextMaterialDbItem) :
    Option SnsCiphertextMaterial := do
  let ctHandle ← toBytes32 item.ctHandle
  let keyId ← fromLeBytes item.keyId
  let snsCiphertextDigest ← toBytes32 item.snsCiphertextDigest
  let coprocessorTxSenderAddresses ← item.coprocessorTxSenderAddresses.mapM toAddress
  return { ctHandle, keyId, snsCiphertextDigest, coprocessorTxSenderAddresses }

/-- A list whose elements can be read back one by one can be read back. -/
theorem mapM_map_of_some {α β : Type*} {f : α → β} {g : β → Option α}
    (h : ∀ a, g (f a) = some a) (l : List α) : (l.map f).mapM g = some l := by
  induction l with
  | nil => rfl
  | cons a l ih => simp [h, ih]

@[simp] theorem material_dbItem (m : SnsCiphertextMaterial) : m.dbItem.material = some m := by
  simp [SnsCiphertextMaterial.dbItem, SnsCiphertextMaterialDbItem.material,
    mapM_map_of_some toAddress_addressBytes]

/-! ## Events -/

abbrev PropagationContext := List (String × String)

/-- The library that serializes the context of a trace. -/
structure Bc2wrap where
  serialize : PropagationContext → Option Bytes
  deserialize : Bytes → Option PropagationContext

/-- The context is serialized, and deserialized again. -/
def Bc2wrap.Keeps (B : Bc2wrap) (context : PropagationContext) : Prop :=
  (B.serialize context).bind B.deserialize = some context

inductive GatewayEventKind
  | publicDecryption (decryptionId : U256) (snsCtMaterials : List SnsCiphertextMaterial)
      (extraData : Bytes)
  | userDecryption (decryptionId : U256) (snsCtMaterials : List SnsCiphertextMaterial)
      (userAddress : Address) (publicKey extraData : Bytes)
  | prepKeygen (prepKeygenId epochId : U256) (paramsType : UInt8)
  | keygen (prepKeygenId keyId : U256)
  | crsgen (crsId maxBitLength : U256) (paramsType : UInt8)
  | prssInit (id : U256)
  | keyReshareSameSet (prepKeygenId keyId keyReshareId : U256) (paramsType : UInt8)
deriving DecidableEq, Repr

structure GatewayEvent where
  kind : GatewayEventKind
  otlpContext : PropagationContext
deriving DecidableEq, Repr

/-- The event for a PRSS has no id of its own. -/
def PRSS_INIT_ID : U256 := 1

/-! ## Rows -/

inductive RequestTable
  | publicDecryptionRequests
  | userDecryptionRequests
  | prepKeygenRequests
  | keygenRequests
  | crsgenRequests
  | prssInit
  | keyReshareSameSet
deriving DecidableEq, Repr

/-- The columns of the tables, but for those that they all have. -/
inductive RequestColumns
  | publicDecryptionRequests (decryptionId : Bytes)
      (snsCtMaterials : List SnsCiphertextMaterialDbItem) (extraData : Bytes)
  | userDecryptionRequests (decryptionId : Bytes)
      (snsCtMaterials : List SnsCiphertextMaterialDbItem) (userAddress publicKey extraData : Bytes)
  | prepKeygenRequests (prepKeygenId epochId : Bytes) (paramsType : ParamsTypeDb)
  | keygenRequests (prepKeygenId keyId : Bytes)
  | crsgenRequests (crsId maxBitLength : Bytes) (paramsType : ParamsTypeDb)
  | prssInit (id : Bytes)
  | keyReshareSameSet (prepKeygenId keyId keyReshareId : Bytes) (paramsType : ParamsTypeDb)
deriving DecidableEq, Repr

abbrev RequestKey := RequestTable × Bytes

/-- The primary key. A reshare is stored under the id of its key. -/
def RequestColumns.key : RequestColumns → RequestKey
  | .publicDecryptionRequests decryptionId _ _ => (.publicDecryptionRequests, decryptionId)
  | .userDecryptionRequests decryptionId _ _ _ _ => (.userDecryptionRequests, decryptionId)
  | .prepKeygenRequests prepKeygenId _ _ => (.prepKeygenRequests, prepKeygenId)
  | .keygenRequests _ keyId => (.keygenRequests, keyId)
  | .crsgenRequests crsId _ _ => (.crsgenRequests, crsId)
  | .prssInit id => (.prssInit, id)
  | .keyReshareSameSet _ keyId _ _ => (.keyReshareSameSet, keyId)

structure RequestRow where
  columns : RequestColumns
  otlpContext : Bytes
  underProcess : Bool := false
deriving DecidableEq, Repr

def RequestRow.key (row : RequestRow) : RequestKey := row.columns.key

abbrev Requests := Table RequestRow.key

/-! ## Statements -/

/-- What the publisher puts into the columns. -/
def GatewayEventKind.columns : GatewayEventKind → Option RequestColumns
  | .publicDecryption decryptionId snsCtMaterials extraData =>
    some (.publicDecryptionRequests (asLeSlice decryptionId)
      (snsCtMaterials.map SnsCiphertextMaterial.dbItem) extraData)
  | .userDecryption decryptionId snsCtMaterials userAddress publicKey extraData =>
    some (.userDecryptionRequests (asLeSlice decryptionId)
      (snsCtMaterials.map SnsCiphertextMaterial.dbItem) (addressBytes userAddress) publicKey
      extraData)
  | .prepKeygen prepKeygenId epochId paramsType => do
    let paramsType ← ParamsTypeDb.tryFrom paramsType
    return .prepKeygenRequests (asLeSlice prepKeygenId) (asLeSlice epochId) paramsType
  | .keygen prepKeygenId keyId =>
    some (.keygenRequests (asLeSlice prepKeygenId) (asLeSlice keyId))
  | .crsgen crsId maxBitLength paramsType => do
    let paramsType ← ParamsTypeDb.tryFrom paramsType
    return .crsgenRequests (asLeSlice crsId) (asLeSlice maxBitLength) paramsType
  | .prssInit id => some (.prssInit (asLeSlice id))
  | .keyReshareSameSet prepKeygenId keyId keyReshareId paramsType => do
    let paramsType ← ParamsTypeDb.tryFrom paramsType
    return .keyReshareSameSet (asLeSlice prepKeygenId) (asLeSlice keyId) (asLeSlice keyReshareId)
      paramsType

/-- `from_public_decryption_row` and the others, but for the context. -/
def RequestColumns.kind : RequestColumns → Option GatewayEventKind
  | .publicDecryptionRequests decryptionId snsCtMaterials extraData => do
    let snsCtMaterials ← snsCtMaterials.mapM SnsCiphertextMaterialDbItem.material
    let decryptionId ← fromLeBytes decryptionId
    return .publicDecryption decryptionId snsCtMaterials extraData
  | .userDecryptionRequests decryptionId snsCtMaterials userAddress publicKey extraData => do
    let snsCtMaterials ← snsCtMaterials.mapM SnsCiphertextMaterialDbItem.material
    let decryptionId ← fromLeBytes decryptionId
    let userAddress ← toAddress userAddress
    return .userDecryption decryptionId snsCtMaterials userAddress publicKey extraData
  | .prepKeygenRequests prepKeygenId epochId paramsType => do
    let prepKeygenId ← fromLeBytes prepKeygenId
    let epochId ← fromLeBytes epochId
    return .prepKeygen prepKeygenId epochId paramsType.toU8
  | .keygenRequests prepKeygenId keyId => do
    let prepKeygenId ← fromLeBytes prepKeygenId
    let keyId ← fromLeBytes keyId
    return .keygen prepKeygenId keyId
  | .crsgenRequests crsId maxBitLength paramsType => do
    let crsId ← fromLeBytes crsId
    let maxBitLength ← fromLeBytes maxBitLength
    return .crsgen crsId maxBitLength paramsType.toU8
  | .prssInit id => do
    let id ← fromLeBytes id
    return .prssInit id
  | .keyReshareSameSet prepKeygenId keyId keyReshareId paramsType => do
    let prepKeygenId ← fromLeBytes prepKeygenId
    let keyId ← fromLeBytes keyId
    let keyReshareId ← fromLeBytes keyReshareId
    return .keyReshareSameSet prepKeygenId keyId keyReshareId paramsType.toU8

/-- The columns of an event are read back as they were. -/
theorem kind_of_columns {e : GatewayEventKind} {columns : RequestColumns}
    (h : e.columns = some columns) : columns.kind = some e := by
  cases e with
  | publicDecryption =>
    obtain rfl := Option.some.inj h
    simp [RequestColumns.kind, mapM_map_of_some material_dbItem]
  | userDecryption =>
    obtain rfl := Option.some.inj h
    simp [RequestColumns.kind, mapM_map_of_some material_dbItem]
  | keygen =>
    obtain rfl := Option.some.inj h
    simp [RequestColumns.kind]
  | prssInit =>
    obtain rfl := Option.some.inj h
    simp [RequestColumns.kind]
  | prepKeygen | crsgen | keyReshareSameSet =>
    obtain ⟨p, hp, h⟩ := Option.bind_eq_some_iff.mp h
    obtain rfl := Option.some.inj h
    simp [RequestColumns.kind, ParamsTypeDb.toU8_of_tryFrom hp]

section Statements

variable (B : Bc2wrap)

def GatewayEvent.row (e : GatewayEvent) : Option RequestRow := do
  let columns ← e.kind.columns
  let otlpContext ← B.serialize e.otlpContext
  return { columns, otlpContext }

/-- A row that has the key of the event already stays as it is. -/
def publish (requests : Requests) (e : GatewayEvent) : Option Requests := do
  let row ← e.row B
  return requests.insert row

def RequestRow.event (row : RequestRow) : Option GatewayEvent := do
  let kind ← row.columns.kind
  let otlpContext ← B.deserialize row.otlpContext
  return { kind, otlpContext }

end Statements

/-- The key of the row that `delete_from_db` removes. -/
def GatewayEventKind.key : GatewayEventKind → RequestKey
  | .publicDecryption decryptionId _ _ => (.publicDecryptionRequests, asLeSlice decryptionId)
  | .userDecryption decryptionId _ _ _ _ => (.userDecryptionRequests, asLeSlice decryptionId)
  | .prepKeygen prepKeygenId _ _ => (.prepKeygenRequests, asLeSlice prepKeygenId)
  | .keygen _ keyId => (.keygenRequests, asLeSlice keyId)
  | .crsgen crsId _ _ => (.crsgenRequests, asLeSlice crsId)
  | .prssInit id => (.prssInit, asLeSlice id)
  | .keyReshareSameSet _ keyId _ _ => (.keyReshareSameSet, asLeSlice keyId)

/-- The key of the row that `mark_as_pending` releases, which is always the same for a PRSS. -/
def GatewayEventKind.pendingKey : GatewayEventKind → RequestKey
  | .prssInit _ => (.prssInit, asLeSlice PRSS_INIT_ID)
  | kind => kind.key

def markAsPending (requests : Requests) (key : RequestKey) : Requests :=
  requests.update (fun row => row.key = key) (fun row => { row with underProcess := false })
    fun _ => rfl

def deleteFromDb (requests : Requests) (key : RequestKey) : Requests :=
  requests.delete fun row => row.key = key

theorem key_of_columns {e : GatewayEventKind} {columns : RequestColumns}
    (h : e.columns = some columns) : columns.key = e.key := by
  cases e with
  | publicDecryption | userDecryption | keygen | prssInit =>
    obtain rfl := Option.some.inj h
    rfl
  | prepKeygen | crsgen | keyReshareSameSet =>
    obtain ⟨p, -, h⟩ := Option.bind_eq_some_iff.mp h
    obtain rfl := Option.some.inj h
    rfl

theorem row_eq_some {B : Bc2wrap} {e : GatewayEvent} {row : RequestRow} :
    e.row B = some row ↔ ∃ columns bytes, e.kind.columns = some columns ∧
      B.serialize e.otlpContext = some bytes ∧
      row = { columns := columns, otlpContext := bytes, underProcess := false } := by
  simp only [GatewayEvent.row, Option.bind_eq_bind, Option.bind_eq_some_iff, Option.pure_def,
    Option.some.injEq]
  grind

/-- The row of an event, read back, is the event, up to its context. -/
theorem kind_of_event_row {B : Bc2wrap} {e e' : GatewayEvent} {row : RequestRow}
    (hrow : e.row B = some row) (he : row.event B = some e') : e'.kind = e.kind := by
  obtain ⟨columns, bytes, hcolumns, -, rfl⟩ := row_eq_some.mp hrow
  simp only [RequestRow.event, Option.bind_eq_bind, Option.bind_eq_some_iff, Option.pure_def,
    Option.some.injEq] at he
  obtain ⟨kind, hkind, context, -, rfl⟩ := he
  rw [kind_of_columns hcolumns] at hkind
  exact (Option.some.inj hkind).symm

/-- A row is read as an event with its key. -/
theorem key_of_kind {columns : RequestColumns} {e : GatewayEventKind}
    (h : columns.kind = some e) : e.key = columns.key := by
  cases columns with
  | publicDecryptionRequests | userDecryptionRequests | prepKeygenRequests | keygenRequests
  | crsgenRequests | prssInit | keyReshareSameSet =>
    simp only [RequestColumns.kind, Option.bind_eq_bind, Option.bind_eq_some_iff, Option.pure_def,
      Option.some.injEq] at h
    obtain ⟨_, h⟩ := h
    grind [GatewayEventKind.key, RequestColumns.key, asLeSlice_of_fromLeBytes]

end Fhevm.KmsConnector
