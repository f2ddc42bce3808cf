import Fhevm.Common.Evm
import Fhevm.Foundation.BigEndian

/-!
# Remote proposals of the governance

A proposal is five arrays of the same length. The sender sends them to the chain of the gateway, the
receiver puts the selectors before the data, and the admin module has the Safe execute the
operations one after the other.

## Main definitions

* `sendRemoteProposal` — the sender's checks, and the message.
* `lzReceive`, `executeSafeTransactions` — the receiver and the admin module of the Safe.
* `Proposal.transaction`, `executeAll` — an operation as the Safe is to execute it, and all of them.
* `lzReceive_executes` — a delivery executes all operations of its proposal, or does nothing.
-/

namespace Fhevm.ProtocolContracts

open Foundation

/-! ## Operations -/

/-- How an operation is called, as the sender declares it. -/
inductive GovernanceOAppSender.Operation
  | call | delegateCall
deriving DecidableEq, Repr

/-- The receiver's own declaration. -/
inductive Structs.Operation
  | call | delegateCall
deriving DecidableEq, Repr

/-- The declaration of the Safe. -/
inductive Enum.Operation
  | call | delegateCall
deriving DecidableEq, Repr

def GovernanceOAppSender.Operation.toUint8 : GovernanceOAppSender.Operation → UInt8
  | call => 0
  | delegateCall => 1

def Structs.Operation.toUint8 : Structs.Operation → UInt8
  | call => 0
  | delegateCall => 1

/-- Decoding refuses numbers that are no member. -/
def Structs.Operation.ofUint8 (n : UInt8) : Option Structs.Operation :=
  if n = 0 then some call else if n = 1 then some delegateCall else none

def Enum.Operation.ofUint8 (n : UInt8) : Option Enum.Operation :=
  if n = 0 then some call else if n = 1 then some delegateCall else none

/-- The member of the same name. -/
def GovernanceOAppSender.Operation.toStructs : GovernanceOAppSender.Operation → Structs.Operation
  | call => .call
  | delegateCall => .delegateCall

/-- The member of the same name. -/
def GovernanceOAppSender.Operation.toSafe : GovernanceOAppSender.Operation → Enum.Operation
  | call => .call
  | delegateCall => .delegateCall

/-- The receiver reads the member that the sender wrote. -/
theorem Structs.Operation.ofUint8_toUint8 (o : GovernanceOAppSender.Operation) :
    Structs.Operation.ofUint8 o.toUint8 = some o.toStructs := by
  cases o <;> rfl

/-- The Safe reads the member that the receiver writes. -/
theorem Enum.Operation.ofUint8_toUint8 (o : GovernanceOAppSender.Operation) :
    Enum.Operation.ofUint8 o.toStructs.toUint8 = some o.toSafe := by
  cases o <;> rfl

/-- The five arrays; `O` stands for the declaration of the operations. -/
structure Proposal (O : Type) where
  targets : List Address
  values : List Bytes32
  functionSignatures : List Bytes
  datas : List Bytes
  operations : List O
deriving DecidableEq, Repr

/-- Encoding and decoding of the arrays; members of an enumeration are encoded as numbers. -/
structure Abi (M : Type) where
  encode : Proposal UInt8 → M
  decode : M → Option (Proposal UInt8)
  decode_encode : ∀ p, decode (encode p) = some p

/-! ## The sender -/

structure MessagingReceipt where
  guid : Bytes32
  nonce : ℕ
  nativeFee : ℕ
deriving DecidableEq, Repr

/-- What the sender calls of LayerZero. Any of it may revert. -/
structure LayerZero (M : Type) where
  combineOptions : (eid msgType : ℕ) → (options : Bytes) → Except Bytes Bytes
  quote : (dstEid : ℕ) → M → (options : Bytes) → Except Bytes ℕ
  lzSend : (dstEid : ℕ) → M → (options : Bytes) → (nativeFee : ℕ) → (refundAddress : Address) →
    Except Bytes MessagingReceipt

structure GovernanceOAppSender where
  owner : Address
  DESTINATION_EID : ℕ
deriving DecidableEq, Repr

/-- The type of all messages. -/
def SEND : ℕ := 1

inductive SenderError
  | ownableUnauthorizedAccount
  | insufficientFee
  | targetsIsEmpty
  | targetsNotSameLengthAsValues
  | targetsNotSameLengthAsDatas
  | targetsNotSameLengthAsOperations
  | targetsNotSameLengthAsFunctionSignatures
  | layerZero (reason : Bytes)
deriving DecidableEq, Repr

/-- A message on its way. -/
structure Packet (M : Type) where
  dstEid : ℕ
  message : M
  options : Bytes
  receipt : MessagingReceipt

section Sender

variable {M : Type} (abi : Abi M) (lz : LayerZero M) (s : GovernanceOAppSender)

/-- The message of a proposal. -/
def encodeProposal (p : Proposal GovernanceOAppSender.Operation) : M :=
  abi.encode { p with operations := p.operations.map GovernanceOAppSender.Operation.toUint8 }

def quoteSendCrossChainTransaction (p : Proposal GovernanceOAppSender.Operation) (options : Bytes) :
    Except SenderError ℕ := do
  let options ← (lz.combineOptions s.DESTINATION_EID SEND options).mapError .layerZero
  (lz.quote s.DESTINATION_EID (encodeProposal abi p) options).mapError .layerZero

def sendRemoteProposal (msgSender : Address) (msgValue : ℕ)
    (p : Proposal GovernanceOAppSender.Operation) (options : Bytes) :
    Except SenderError (Packet M) := do
  require (msgSender = s.owner) .ownableUnauthorizedAccount
  let quotedFee ← quoteSendCrossChainTransaction abi lz s p options
  require (quotedFee ≤ msgValue) .insufficientFee
  let targetLen := p.targets.length
  require (targetLen ≠ 0) .targetsIsEmpty
  require (targetLen = p.values.length) .targetsNotSameLengthAsValues
  require (targetLen = p.datas.length) .targetsNotSameLengthAsDatas
  require (targetLen = p.operations.length) .targetsNotSameLengthAsOperations
  require (targetLen = p.functionSignatures.length) .targetsNotSameLengthAsFunctionSignatures
  let options ← (lz.combineOptions s.DESTINATION_EID SEND options).mapError .layerZero
  let message := encodeProposal abi p
  let receipt ←
    (lz.lzSend s.DESTINATION_EID message options msgValue msgSender).mapError .layerZero
  .ok { dstEid := s.DESTINATION_EID, message, options, receipt }

end Sender

/-! ## The admin module -/

/-- A transaction that the Safe is told to execute. -/
structure SafeTransaction where
  target : Address
  value : Bytes32
  data : Bytes
  operation : Enum.Operation
deriving DecidableEq, Repr

structure AdminModule where
  ADMIN_ACCOUNT : Address
  SAFE_PROXY : Address
deriving DecidableEq, Repr

inductive AdminModuleError
  | senderIsNotAdmin
  | targetsIsEmpty
  | targetsNotSameLengthAsValues
  | targetsNotSameLengthAsDataPayloads
  | targetsNotSameLengthAsOperations
  | couldNotExecuteSafeTx (index : ℕ) (tx : SafeTransaction) (errorData : Bytes)
  /-- The call of the Safe reverts. -/
  | safe (errorData : Bytes)
  /-- The arguments do not have the declared types, or an index is out of bounds. -/
  | malformed
deriving DecidableEq, Repr

/-- The chain of the gateway. `σ` stands for the whole state of the chain; a transaction of the Safe
may change any part of it. -/
structure GatewayChain (σ : Type) where
  receiver : Address
  /-- The module that the storage of the receiver names. -/
  adminSafeModule : σ → Address
  adminModuleAt : Address → Option AdminModule
  /-- The success flag, the return data and the state after it, or a revert. -/
  execTransactionFromModuleReturnData : (safeProxy sender : Address) → SafeTransaction → σ →
    Except Bytes (Bool × Bytes × σ)

/-- The access to an array, which panics out of its bounds. -/
def indexed {α ε : Type} (panic : ε) (l : List α) (idx : ℕ) : Except ε α :=
  match l[idx]? with
  | some a => .ok a
  | none => .error panic

section Receiver

variable {M σ : Type} (keccak256 : Bytes → Bytes32) (abi : Abi M) (G : GatewayChain σ)

/-- One turn of the loop: execute the transaction at an index. -/
def executeSafeTransaction (module : AdminModule) (moduleAddress : Address)
    (targets : List Address) (values : List Bytes32) (dataPayloads : List Bytes)
    (operations : List Enum.Operation) (w : σ) (idx : ℕ) : Except AdminModuleError σ := do
  let target ← indexed .malformed targets idx
  let value ← indexed .malformed values idx
  let data ← indexed .malformed dataPayloads idx
  let operation ← indexed .malformed operations idx
  let tx : SafeTransaction := { target, value, data, operation }
  let (success, returnData, w) ←
    (G.execTransactionFromModuleReturnData module.SAFE_PROXY moduleAddress tx w).mapError .safe
  require (success = true) (.couldNotExecuteSafeTx idx tx returnData)
  .ok w

def executeSafeTransactions (module : AdminModule) (moduleAddress msgSender : Address)
    (targets : List Address) (values : List Bytes32) (dataPayloads : List Bytes)
    (operations : List Enum.Operation) (w : σ) : Except AdminModuleError σ := do
  require (msgSender = module.ADMIN_ACCOUNT) .senderIsNotAdmin
  let targetLen := targets.length
  require (targetLen ≠ 0) .targetsIsEmpty
  require (targetLen = values.length) .targetsNotSameLengthAsValues
  require (targetLen = dataPayloads.length) .targetsNotSameLengthAsDataPayloads
  require (targetLen = operations.length) .targetsNotSameLengthAsOperations
  (List.range targetLen).foldlM
    (executeSafeTransaction G module moduleAddress targets values dataPayloads operations) w

/-! ## The receiver -/

inductive ReceiverError
  | adminSafeModuleNotSet
  /-- The message does not decode, or an index is out of bounds. -/
  | malformed
  /-- There is no module at the address. -/
  | noModule
  | adminModule (e : AdminModuleError)
deriving DecidableEq, Repr

/-- Where a message comes from. -/
structure Origin where
  srcEid : ℕ
  sender : Bytes32
  nonce : ℕ
deriving DecidableEq, Repr

structure ProposalExecuted where
  origin : Origin
  guid : Bytes32
  proposal : Proposal Structs.Operation
deriving DecidableEq, Repr

/-- `bytes4(keccak256(...))`: the first four bytes of the hash. -/
def selector (functionSignature : Bytes) : Bytes :=
  (BigEndian.encode 32 (keccak256 functionSignature).toNat).take 4

/-- The payload of an operation. -/
def payload (functionSignature data : Bytes) : Bytes :=
  if functionSignature.length = 0 then data else selector keccak256 functionSignature ++ data

/-- One turn of the loop: put the selector before the data at an index. -/
def rewriteData (functionSignatures datas : List Bytes) (idx : ℕ) :
    Except ReceiverError (List Bytes) := do
  let functionSignature ← indexed .malformed functionSignatures idx
  let data ← indexed .malformed datas idx
  .ok (datas.set idx (payload keccak256 functionSignature data))

/-- The arrays of a message. -/
def decodeProposal (message : M) : Option (Proposal Structs.Operation) := do
  let p ← abi.decode message
  let operations ← p.operations.mapM Structs.Operation.ofUint8
  some { p with operations }

def lzReceive (origin : Origin) (guid : Bytes32) (message : M) (w : σ) :
    Except ReceiverError (ProposalExecuted × σ) := do
  require (G.adminSafeModule w ≠ 0) .adminSafeModuleNotSet
  let some p := decodeProposal abi message | .error .malformed
  let datas ← (List.range p.targets.length).foldlM (rewriteData keccak256 p.functionSignatures)
    p.datas
  let some module := G.adminModuleAt (G.adminSafeModule w) | .error .noModule
  let some operations := (p.operations.map Structs.Operation.toUint8).mapM Enum.Operation.ofUint8
    | .error (.adminModule .malformed)
  let w ← (executeSafeTransactions G module (G.adminSafeModule w) G.receiver p.targets p.values
    datas operations w).mapError .adminModule
  .ok ({ origin, guid, proposal := { p with datas } }, w)

/-- A delivery that reverts leaves the state of the chain as it was. -/
def gatewayReceiver : Contract (Origin × Bytes32 × M) σ ReceiverError ProposalExecuted where
  call i w := lzReceive keccak256 abi G i.1 i.2.1 i.2.2 w

/-! ## What a proposal asks for -/

/-- The `i`-th operation of a proposal as the Safe is to execute it. -/
def Proposal.transaction (p : Proposal GovernanceOAppSender.Operation) (i : ℕ) :
    Option SafeTransaction := do
  let target ← p.targets[i]?
  let value ← p.values[i]?
  let functionSignature ← p.functionSignatures[i]?
  let data ← p.datas[i]?
  let operation ← p.operations[i]?
  some {
    target
    value
    data := if functionSignature = [] then data else selector keccak256 functionSignature ++ data
    operation := operation.toSafe }

/-- The state after the Safe has executed one transaction successfully. -/
def execute (module : AdminModule) (moduleAddress : Address) (w : σ) (tx : SafeTransaction) :
    Option σ :=
  match G.execTransactionFromModuleReturnData module.SAFE_PROXY moduleAddress tx w with
  | .ok (true, _, w) => some w
  | _ => none

/-- The state after the Safe has executed transactions in order, if all of them succeed. -/
def executeAll (module : AdminModule) (moduleAddress : Address) (txs : List SafeTransaction)
    (w : σ) : Option σ :=
  txs.foldlM (execute G module moduleAddress) w

variable {keccak256 abi G} {lz : LayerZero M} {s : GovernanceOAppSender}

/-! ## The message -/

/-- What the sender checks of the arrays. -/
structure Proposal.Aligned {O : Type} (p : Proposal O) : Prop where
  targets_ne : p.targets.length ≠ 0
  values : p.targets.length = p.values.length
  datas : p.targets.length = p.datas.length
  operations : p.targets.length = p.operations.length
  functionSignatures : p.targets.length = p.functionSignatures.length

theorem sendRemoteProposal_ok {msgSender : Address} {msgValue : ℕ}
    {p : Proposal GovernanceOAppSender.Operation} {options : Bytes} {packet : Packet M}
    (h : sendRemoteProposal abi lz s msgSender msgValue p options = .ok packet) :
    p.Aligned ∧ packet.message = encodeProposal abi p := by
  unfold sendRemoteProposal at h
  simp only [bind_eq_ok, require_eq_ok] at h
  obtain ⟨-, -, fee, -, -, -, -, ht, -, hv, -, hd, -, ho, -, hf, opts, -, receipt, -, h⟩ := h
  cases h
  exact ⟨⟨ht, hv, hd, ho, hf⟩, rfl⟩

theorem mapM_map_of_forall {α β γ : Type} {f : α → β} {g : β → Option γ} {r : α → γ}
    (hread : ∀ a, g (f a) = some (r a)) (l : List α) : (l.map f).mapM g = some (l.map r) := by
  induction l with
  | nil => rfl
  | cons a l ih => simp [List.mapM_cons, hread, ih]

/-- The receiver decodes the arrays that the sender encoded. -/
theorem decodeProposal_encodeProposal (p : Proposal GovernanceOAppSender.Operation) :
    decodeProposal abi (encodeProposal abi p) =
      some { p with
        operations := p.operations.map GovernanceOAppSender.Operation.toStructs } := by
  have hread := mapM_map_of_forall Structs.Operation.ofUint8_toUint8 p.operations
  simp [decodeProposal, encodeProposal, abi.decode_encode, hread]

/-- The admin module reads the operations that the receiver passes on. -/
theorem mapM_ofUint8_toUint8 (operations : List GovernanceOAppSender.Operation) :
    ((operations.map GovernanceOAppSender.Operation.toStructs).map
      Structs.Operation.toUint8).mapM Enum.Operation.ofUint8 =
      some (operations.map GovernanceOAppSender.Operation.toSafe) := by
  rw [List.map_map]
  exact mapM_map_of_forall Enum.Operation.ofUint8_toUint8 operations

/-! ## The loops -/

theorem foldlM_range_succ {m : Type → Type} [Monad m] [LawfulMonad m] {β : Type}
    (f : β → ℕ → m β) (b : β) (n : ℕ) :
    (List.range (n + 1)).foldlM f b = (List.range n).foldlM f b >>= fun c => f c n := by
  simp [List.range_succ]

theorem indexed_of_getElem? {α ε : Type} {panic : ε} {l : List α} {idx : ℕ} {a : α}
    (h : l[idx]? = some a) : indexed panic l idx = .ok a := by
  rw [indexed, h]

/-- The first `n` turns rewrite the first `n` data. -/
theorem exists_rewritten (functionSignatures datas : List Bytes) {n : ℕ}
    (hf : n ≤ functionSignatures.length) (hd : n ≤ datas.length) :
    ∃ rewritten, (List.range n).foldlM (rewriteData keccak256 functionSignatures) datas =
        .ok rewritten ∧ rewritten.length = datas.length ∧
      ∀ i, rewritten[i]? = if i < n
        then Option.map₂ (payload keccak256) functionSignatures[i]? datas[i]? else datas[i]? := by
  induction n with
  | zero => exact ⟨datas, rfl, rfl, by simp⟩
  | succ n ih =>
    obtain ⟨rewritten, hrun, hlength, hget⟩ := ih (by omega) (by omega)
    have hf' : functionSignatures[n]? = some functionSignatures[n] := List.getElem?_eq_getElem hf
    have hd' : datas[n]? = some datas[n] := List.getElem?_eq_getElem hd
    -- the turn before has not touched the data at `n`
    have hn : rewritten[n]? = some datas[n] := by rw [hget, if_neg (lt_irrefl n), hd']
    refine ⟨rewritten.set n (payload keccak256 functionSignatures[n] datas[n]), ?_, by simpa, ?_⟩
    · simp [foldlM_range_succ, hrun, rewriteData, indexed_of_getElem? hf', indexed_of_getElem? hn,
        Bind.bind, Except.bind]
    · intro i
      obtain hlt | rfl | hgt := lt_trichotomy i n
      · rw [List.getElem?_set_ne hlt.ne', hget, if_pos hlt, if_pos (by omega)]
      · rw [List.getElem?_set_self (by omega), if_pos (Nat.lt_succ_self i), hf', hd']
        rfl
      · rw [List.getElem?_set_ne hgt.ne, hget, if_neg (by omega), if_neg (by omega)]

theorem toOption_executeSafeTransaction {module : AdminModule} {moduleAddress : Address}
    {targets : List Address} {values : List Bytes32} {dataPayloads : List Bytes}
    {operations : List Enum.Operation} {idx : ℕ} {tx : SafeTransaction}
    (ht : targets[idx]? = some tx.target) (hv : values[idx]? = some tx.value)
    (hd : dataPayloads[idx]? = some tx.data) (ho : operations[idx]? = some tx.operation) (w : σ) :
    (executeSafeTransaction G module moduleAddress targets values dataPayloads operations w
      idx).toOption = execute G module moduleAddress w tx := by
  unfold executeSafeTransaction execute
  rw [indexed_of_getElem? ht, indexed_of_getElem? hv, indexed_of_getElem? hd,
    indexed_of_getElem? ho]
  cases hcall : G.execTransactionFromModuleReturnData module.SAFE_PROXY moduleAddress tx w with
  | error e => simp [hcall, Bind.bind, Except.bind, Except.mapError, Except.toOption]
  | ok r =>
    obtain ⟨success, returnData, w'⟩ := r
    cases success <;>
      simp [hcall, Bind.bind, Except.bind, Except.mapError, Except.toOption, require]

/-- `n` turns execute the first `n` transactions. -/
theorem toOption_foldlM_executeSafeTransaction (module : AdminModule) (moduleAddress : Address)
    {targets : List Address} {values : List Bytes32} {dataPayloads : List Bytes}
    {operations : List Enum.Operation} {txs : List SafeTransaction} {n : ℕ}
    (htxs : ∀ i < n, ∃ tx, txs[i]? = some tx ∧ targets[i]? = some tx.target ∧
      values[i]? = some tx.value ∧ dataPayloads[i]? = some tx.data ∧
      operations[i]? = some tx.operation) (w : σ) :
    ((List.range n).foldlM (executeSafeTransaction G module moduleAddress targets values
      dataPayloads operations) w).toOption = executeAll G module moduleAddress (txs.take n) w := by
  induction n with
  | zero => rfl
  | succ n ih =>
    obtain ⟨tx, htx, ht, hv, hd, ho⟩ := htxs n (Nat.lt_succ_self n)
    have hrun := ih fun i hi => htxs i (by omega)
    have hstep : ∀ w', (executeSafeTransaction G module moduleAddress targets values dataPayloads
        operations w' n).toOption = execute G module moduleAddress w' tx :=
      toOption_executeSafeTransaction ht hv hd ho
    rw [foldlM_range_succ, List.take_add_one, htx, executeAll, Option.toList_some,
      List.foldlM_append, ← executeAll, ← hrun]
    cases (List.range n).foldlM (executeSafeTransaction G module moduleAddress targets values
      dataPayloads operations) w with
    | error e => rfl
    | ok w' =>
      have hturn := hstep w'
      simpa [Bind.bind, Except.bind, Except.toOption] using hturn

/-! ## Delivery -/

/-- An operation is there at the indices of the targets and at no others. -/
theorem Proposal.Aligned.isSome_transaction {p : Proposal GovernanceOAppSender.Operation}
    (h : p.Aligned) (i : ℕ) :
    (p.transaction keccak256 i).isSome = true ↔ i < p.targets.length := by
  constructor
  · intro hsome
    by_contra hle
    have hnone : p.targets[i]? = none := List.getElem?_eq_none (by omega)
    simp [Proposal.transaction, hnone] at hsome
  · intro hi
    have hv := h.values ▸ hi
    have hd := h.datas ▸ hi
    have ho := h.operations ▸ hi
    have hf := h.functionSignatures ▸ hi
    simp [Proposal.transaction, hi, hv, hd, ho, hf]

theorem Proposal.Aligned.exists_transactions {p : Proposal GovernanceOAppSender.Operation}
    (h : p.Aligned) : ∃ txs : List SafeTransaction, txs.length = p.targets.length ∧
      ∀ i, p.transaction keccak256 i = txs[i]? := by
  refine ⟨List.ofFn fun i : Fin p.targets.length =>
    (p.transaction keccak256 i).get ((h.isSome_transaction i).mpr i.isLt),
    List.length_ofFn, fun i => ?_⟩
  rw [List.getElem?_ofFn]
  split_ifs with hi
  · simp
  · exact Option.not_isSome_iff_eq_none.mp fun hsome => hi ((h.isSome_transaction i).mp hsome)

/-- The components of an operation. -/
theorem Proposal.transaction_eq_some {p : Proposal GovernanceOAppSender.Operation} {i : ℕ}
    {tx : SafeTransaction} (h : p.transaction keccak256 i = some tx) :
    p.targets[i]? = some tx.target ∧ p.values[i]? = some tx.value ∧
      Option.map₂ (payload keccak256) p.functionSignatures[i]? p.datas[i]? = some tx.data ∧
      (p.operations.map GovernanceOAppSender.Operation.toSafe)[i]? = some tx.operation := by
  unfold Proposal.transaction at h
  simp only [Option.bind_eq_bind, Option.bind_eq_some_iff, Option.some.injEq] at h
  obtain ⟨target, ht, value, hv, functionSignature, hf, data, hd, operation, ho, rfl⟩ := h
  simp [ht, hv, hf, hd, ho, payload]

/-- What a delivery does after its arrays are decoded: the loop of the admin module. -/
theorem Proposal.Aligned.lzReceive_encodeProposal
    {p : Proposal GovernanceOAppSender.Operation} (hp : p.Aligned) {message : M}
    (hmessage : message = encodeProposal abi p) {module : AdminModule} {w : σ}
    (hset : G.adminSafeModule w ≠ 0)
    (hmodule : G.adminModuleAt (G.adminSafeModule w) = some module)
    (hadmin : module.ADMIN_ACCOUNT = G.receiver) (origin : Origin) (guid : Bytes32) :
    ∃ rewritten : List Bytes,
      (∀ i < p.targets.length, rewritten[i]? =
        Option.map₂ (payload keccak256) p.functionSignatures[i]? p.datas[i]?) ∧
      ∃ event, lzReceive keccak256 abi G origin guid message w =
        ((List.range p.targets.length).foldlM (executeSafeTransaction G module
          (G.adminSafeModule w) p.targets p.values rewritten
          (p.operations.map GovernanceOAppSender.Operation.toSafe)) w).mapError .adminModule >>=
          fun w' => .ok (event, w') := by
  obtain ⟨rewritten, hrun, hlength, hget⟩ : ∃ rewritten,
      (List.range p.targets.length).foldlM (rewriteData keccak256 p.functionSignatures) p.datas =
        .ok rewritten ∧ _ := exists_rewritten _ _ hp.functionSignatures.le hp.datas.le
  refine ⟨rewritten, fun i hi => by rw [hget, if_pos hi], { origin, guid, proposal := { p with
    operations := p.operations.map GovernanceOAppSender.Operation.toStructs
    datas := rewritten } }, ?_⟩
  have hchecks : executeSafeTransactions G module (G.adminSafeModule w) G.receiver p.targets
      p.values rewritten (p.operations.map GovernanceOAppSender.Operation.toSafe) w =
      (List.range p.targets.length).foldlM (executeSafeTransaction G module
        (G.adminSafeModule w) p.targets p.values rewritten
        (p.operations.map GovernanceOAppSender.Operation.toSafe)) w := by
    simp [executeSafeTransactions, require, hadmin, hp.targets_ne, ← hp.values, ← hp.operations,
      hlength, ← hp.datas, Bind.bind, Except.bind]
  rw [← hchecks, hmessage]
  simp only [lzReceive, require, hset, decodeProposal_encodeProposal, hrun, hmodule,
    mapM_ofUint8_toUint8, if_true, ne_eq, not_false_eq_true]
  rfl

/-- A delivered proposal, if the sender has accepted it and the admin module is set and belongs to
the receiver, has the Safe execute its operations in order, and all of them, or changes nothing. -/
theorem lzReceive_executes {msgSender : Address} {msgValue : ℕ}
    {p : Proposal GovernanceOAppSender.Operation} {options : Bytes} {packet : Packet M}
    {module : AdminModule} {w : σ}
    (hsend : sendRemoteProposal abi lz s msgSender msgValue p options = .ok packet)
    (hset : G.adminSafeModule w ≠ 0)
    (hmodule : G.adminModuleAt (G.adminSafeModule w) = some module)
    (hadmin : module.ADMIN_ACCOUNT = G.receiver) (origin : Origin) (guid : Bytes32) :
    ∃ txs : List SafeTransaction, txs.length = p.targets.length ∧
      (∀ i, txs[i]? = p.transaction keccak256 i) ∧
      ((∃ event w', executeAll G module (G.adminSafeModule w) txs w = some w' ∧
          (gatewayReceiver keccak256 abi G).call (origin, guid, packet.message) w =
            .ok (event, w') ∧
          (gatewayReceiver keccak256 abi G).step (origin, guid, packet.message) w = w') ∨
        (∃ e, executeAll G module (G.adminSafeModule w) txs w = none ∧
          (gatewayReceiver keccak256 abi G).call (origin, guid, packet.message) w = .error e ∧
          (gatewayReceiver keccak256 abi G).step (origin, guid, packet.message) w = w)) := by
  obtain ⟨hp, hmessage⟩ := sendRemoteProposal_ok hsend
  obtain ⟨txs, hlength, htxs⟩ : ∃ txs : List SafeTransaction, txs.length = p.targets.length ∧
    ∀ i, p.transaction keccak256 i = txs[i]? := hp.exists_transactions
  obtain ⟨rewritten, hrewritten, event, hcall⟩ :=
    hp.lzReceive_encodeProposal hmessage hset hmodule hadmin origin guid
  have htransaction : ∀ i < p.targets.length, ∃ tx, txs[i]? = some tx ∧
      p.targets[i]? = some tx.target ∧ p.values[i]? = some tx.value ∧
      rewritten[i]? = some tx.data ∧
      (p.operations.map GovernanceOAppSender.Operation.toSafe)[i]? = some tx.operation := by
    intro i hi
    obtain ⟨tx, htx⟩ := Option.isSome_iff_exists.mp ((hp.isSome_transaction i).mpr hi)
    obtain ⟨ht, hv, hd, ho⟩ := Proposal.transaction_eq_some htx
    exact ⟨tx, (htxs i).symm.trans htx, ht, hv, (hrewritten i hi).trans hd, ho⟩
  have hloop := toOption_foldlM_executeSafeTransaction module (G.adminSafeModule w)
    htransaction w (G := G)
  rw [← hlength, List.take_length, hlength] at hloop
  refine ⟨txs, hlength, fun i => (htxs i).symm, ?_⟩
  cases hrun : (List.range p.targets.length).foldlM (executeSafeTransaction G module
      (G.adminSafeModule w) p.targets p.values rewritten
      (p.operations.map GovernanceOAppSender.Operation.toSafe)) w with
  | ok w' =>
    rw [hrun] at hcall hloop
    exact .inl ⟨event, w', hloop.symm, hcall, Contract.step_of_ok hcall⟩
  | error e =>
    rw [hrun] at hcall hloop
    exact .inr ⟨.adminModule e, hloop.symm, hcall, Contract.step_of_error hcall⟩

end Receiver

/-! ## A proposal that pauses a contract -/

/-- The hash of the text `pause()`; no other text is hashed below. -/
def pauseKeccak256 (_ : Bytes) : Bytes32 :=
  0x8456cb591a934d53f6ccc6332123a165a1f3562907bf11330d847a29ca49eb89

/-- A call by its signature, and a delegate call by the whole calldata. -/
def pauseProposal : Proposal GovernanceOAppSender.Operation where
  targets := [0xA, 0xB]
  values := [0, 0]
  functionSignatures := [[112, 97, 117, 115, 101, 40, 41], []]
  datas := [[], [0x84, 0x56, 0xcb, 0x59]]
  operations := [.call, .delegateCall]

def plainAbi : Abi (Proposal UInt8) where
  encode p := p
  decode p := some p
  decode_encode _ := rfl

def freeLayerZero : LayerZero (Proposal UInt8) where
  combineOptions _ _ options := .ok options
  quote _ _ _ := .ok 0
  lzSend _ _ _ nativeFee _ := .ok { guid := 1, nonce := 1, nativeFee }

/-- A chain whose state is the list of the transactions that the Safe has executed. -/
def recordingChain : GatewayChain (List SafeTransaction) where
  receiver := 1
  adminSafeModule _ := 2
  adminModuleAt a := if a = 2 then some { ADMIN_ACCOUNT := 1, SAFE_PROXY := 3 } else none
  execTransactionFromModuleReturnData _ _ tx executed := .ok (true, [], executed ++ [tx])

def pauseTransactions : List SafeTransaction :=
  [{ target := 0xA, value := 0, data := [0x84, 0x56, 0xcb, 0x59], operation := .call },
    { target := 0xB, value := 0, data := [0x84, 0x56, 0xcb, 0x59], operation := .delegateCall }]

theorem pauseProposal_executes :
    (gatewayReceiver pauseKeccak256 plainAbi recordingChain).step
      (⟨1, 7, 1⟩, 1, encodeProposal plainAbi pauseProposal) [] = pauseTransactions := by
  have hsend : sendRemoteProposal plainAbi freeLayerZero { owner := 5, DESTINATION_EID := 40424 }
      5 0 pauseProposal [] = .ok {
        dstEid := 40424
        message := encodeProposal plainAbi pauseProposal
        options := []
        receipt := { guid := 1, nonce := 1, nativeFee := 0 } } := rfl
  have hset : recordingChain.adminSafeModule [] ≠ 0 := by decide
  have hmodule : recordingChain.adminModuleAt (recordingChain.adminSafeModule []) =
    some ⟨1, 3⟩ := rfl
  obtain ⟨txs, -, htxs, h⟩ : ∃ txs : List SafeTransaction, _ ∧
      (∀ i, txs[i]? = pauseProposal.transaction pauseKeccak256 i) ∧ _ :=
    lzReceive_executes hsend hset hmodule rfl ⟨1, 7, 1⟩ 1
  obtain rfl : txs = pauseTransactions := by
    refine List.ext_getElem? fun i => (htxs i).trans ?_
    match i with
    | 0 | 1 => decide
    | _ + 2 => rfl
  obtain ⟨event, w', hall, -, hstep⟩ | ⟨e, hall, -⟩ := h
  · rw [hstep]
    cases hall
    rfl
  · cases hall

end Fhevm.ProtocolContracts
