import Fhevm.Gateway.Shared
import Fhevm.Host.ACL

/-!
# Verification of inputs

A user asks for the verification of a proof, and the coprocessors answer by signed
lists of handles or by rejections, until enough of them agree on one answer.

## Main definitions

* `InputVerificationStorage` — the storage of the contract.
* `verifyProofRequest`, `verifyProofResponse`, `rejectProofResponse` — the entry points.
* `inputVerification` — the contract.
* `proofVote` — the ballot of a response.
* `inputVerification_ok` — what a committed call does.
-/

namespace Fhevm.Gateway

open Foundation Contract Host

/-! ## Data -/

structure ZKProofInput where
  contractChainId : Nat
  contractAddress : Address
  userAddress : Address
deriving DecidableEq, Repr

/-- The struct that a coprocessor signs. -/
structure ProofVerification where
  ctHandles : List Bytes32
  userAddress : Address
  contractAddress : Address
  contractChainId : Nat
  extraData : Bytes
deriving DecidableEq, Repr

structure InputVerificationStorage where
  paused : Bool
  zkProofIdCounter : Nat
  zkProofInputs : Nat → ZKProofInput
  zkProofSignatures : Nat → Bytes32 → List Bytes
  verifyProofConsensusTxSenders : Nat → Bytes32 → List Address
  verifiedZKProofs : Nat → Bool
  signerVerifiedZKPoK : Nat → Address → Bool
  verifyProofConsensusDigest : Nat → Bytes32
  rejectedZKProofs : Nat → Bool
  rejectedProofResponseCounter : Nat → Nat
  signerRejectedZKPoK : Nat → Address → Bool
  rejectProofConsensusTxSenders : Nat → List Address
  inputVerificationContextId : Nat → Nat

/-- The storage after `initializeFromEmptyProxy`. -/
def InputVerificationStorage.init : InputVerificationStorage where
  paused := false
  zkProofIdCounter := 0
  zkProofInputs _ := ⟨0, 0, 0⟩
  zkProofSignatures _ _ := []
  verifyProofConsensusTxSenders _ _ := []
  verifiedZKProofs _ := false
  signerVerifiedZKPoK _ _ := false
  verifyProofConsensusDigest _ := 0
  rejectedZKProofs _ := false
  rejectedProofResponseCounter _ := 0
  signerRejectedZKPoK _ _ := false
  rejectProofConsensusTxSenders _ := []
  inputVerificationContextId _ := 0

inductive InputVerificationEvent
  | verifyProofRequest (zkProofId contractChainId : Nat) (contractAddress userAddress : Address)
      (ciphertextWithZKProof extraData : Bytes)
  | verifyProofResponseCall (zkProofId : Nat) (ctHandles : List Bytes32) (signature : Bytes)
      (coprocessorTxSender : Address) (extraData : Bytes)
  | verifyProofResponse (zkProofId : Nat) (ctHandles : List Bytes32) (signatures : List Bytes)
  | rejectProofResponseCall (zkProofId : Nat) (extraData : Bytes)
  | rejectProofResponse (zkProofId : Nat)
  | paused (account : Address)
  | unpaused (account : Address)
deriving DecidableEq, Repr

inductive InputVerificationError
  | shared (e : SharedError)
  | verifyProofNotRequested (zkProofId : Nat)
  | coprocessorAlreadyVerified (zkProofId : Nat) (txSender signer : Address)
  | coprocessorAlreadyRejected (zkProofId : Nat) (txSender signer : Address)
deriving DecidableEq, Repr

abbrev InputVerificationResult :=
  Except InputVerificationError (List InputVerificationEvent × InputVerificationStorage)

/-! ## Entry points -/

section EntryPoints

variable (D : GatewayDeployment)

def EIP712_ZKPOK_TYPE : String :=
  "CiphertextVerification(bytes32[] ctHandles,address userAddress,address contractAddress,uint256 contractChainId,bytes extraData)"

/-- `_hashCiphertextVerification` -/
def hashCiphertextVerification (ctVerification : ProofVerification) : Bytes32 :=
  toTypedDataHash D.keccak256
    (domainSeparator D.keccak256 "InputVerification" "1" D.chainid D.inputVerificationAddress)
    (D.keccak256 (wordBytes (D.keccak256 (textBytes EIP712_ZKPOK_TYPE)) ++
      wordBytes (D.keccak256 (ctVerification.ctHandles.flatMap wordBytes)) ++
        paddedAddress ctVerification.userAddress ++
          paddedAddress ctVerification.contractAddress ++
            uintBytes ctVerification.contractChainId ++
              wordBytes (D.keccak256 ctVerification.extraData)))

/-- The digest that is signed for a list of handles of a requested proof. -/
def InputVerificationStorage.digest (s : InputVerificationStorage) (zkProofId : Nat)
    (ctHandles : List Bytes32) (extraData : Bytes) : Bytes32 :=
  let zkProofInput := s.zkProofInputs zkProofId
  hashCiphertextVerification D ⟨ctHandles, zkProofInput.userAddress, zkProofInput.contractAddress,
    zkProofInput.contractChainId, extraData⟩

def verifyProofRequest (tx : GatewayTx) (contractChainId : Nat)
    (contractAddress userAddress : Address) (ciphertextWithZKProof extraData : Bytes)
    (feeCollected : Bool) (s : InputVerificationStorage) : InputVerificationResult := do
  (GatewayConfigChecks.onlyRegisteredHostChain tx.config contractChainId).mapError
    fun e => .shared (.check e)
  (whenNotPaused s.paused).mapError .shared
  let zkProofId ← increment 256 s.zkProofIdCounter (.shared .overflow)
  (collectFee feeCollected).mapError .shared
  return ([.verifyProofRequest zkProofId contractChainId contractAddress userAddress
      ciphertextWithZKProof extraData],
    { s with
      zkProofIdCounter := zkProofId
      zkProofInputs := Function.update s.zkProofInputs zkProofId
        ⟨contractChainId, contractAddress, userAddress⟩
      inputVerificationContextId := Function.update s.inputVerificationContextId zkProofId 1 })

def checkProofRequested (s : InputVerificationStorage) (zkProofId : Nat) :
    Except InputVerificationError Unit :=
  require (¬ (zkProofId > s.zkProofIdCounter ∨ zkProofId = 0)) (.verifyProofNotRequested zkProofId)

/-- `_checkCoprocessorAlreadyResponded` -/
def checkCoprocessorAlreadyResponded (tx : GatewayTx) (s : InputVerificationStorage)
    (zkProofId : Nat) (signer : Address) : Except InputVerificationError Unit := do
  require (s.signerVerifiedZKPoK zkProofId signer = false)
    (.coprocessorAlreadyVerified zkProofId tx.sender signer)
  require (s.signerRejectedZKPoK zkProofId signer = false)
    (.coprocessorAlreadyRejected zkProofId tx.sender signer)

/-- Whether the answer with this many votes decides the proof. -/
def decidesProof (tx : GatewayTx) (s : InputVerificationStorage) (zkProofId counter : Nat) : Bool :=
  !s.verifiedZKProofs zkProofId && !s.rejectedZKProofs zkProofId &&
    decide (tx.config.coprocessorThreshold ≤ counter)

def verifyProofResponse (tx : GatewayTx) (zkProofId : Nat) (ctHandles : List Bytes32)
    (signature extraData : Bytes) (s : InputVerificationStorage) : InputVerificationResult := do
  (GatewayConfigChecks.onlyCoprocessorTxSender tx.config tx.sender).mapError
    fun e => .shared (.check e)
  checkProofRequested s zkProofId
  let digest := s.digest D zkProofId ctHandles extraData
  let signer ← (recoverSigner D digest signature).mapError .shared
  (GatewayConfigChecks.checkCoprocessorSignerMatchesTxSender tx.config signer tx.sender).mapError
    fun e => .shared (.check e)
  checkCoprocessorAlreadyResponded tx s zkProofId signer
  let s := { s with
    zkProofSignatures := update₂ s.zkProofSignatures zkProofId digest
      (s.zkProofSignatures zkProofId digest ++ [signature])
    signerVerifiedZKPoK := update₂ s.signerVerifiedZKPoK zkProofId signer true
    verifyProofConsensusTxSenders := update₂ s.verifyProofConsensusTxSenders zkProofId digest
      (s.verifyProofConsensusTxSenders zkProofId digest ++ [tx.sender]) }
  let event := .verifyProofResponseCall zkProofId ctHandles signature tx.sender extraData
  if decidesProof tx s zkProofId (s.zkProofSignatures zkProofId digest).length then
    return ([event,
        .verifyProofResponse zkProofId ctHandles (s.zkProofSignatures zkProofId digest)],
      { s with
        verifiedZKProofs := Function.update s.verifiedZKProofs zkProofId true
        verifyProofConsensusDigest :=
          Function.update s.verifyProofConsensusDigest zkProofId digest })
  else
    return ([event], s)

def rejectProofResponse (tx : GatewayTx) (zkProofId : Nat) (extraData : Bytes)
    (s : InputVerificationStorage) : InputVerificationResult := do
  (GatewayConfigChecks.onlyCoprocessorTxSender tx.config tx.sender).mapError
    fun e => .shared (.check e)
  checkProofRequested s zkProofId
  -- the signer is not recovered but looked up
  let signer := (tx.config.coprocessors.operators tx.sender).signerAddress
  checkCoprocessorAlreadyResponded tx s zkProofId signer
  let counter ← increment 256 (s.rejectedProofResponseCounter zkProofId) (.shared .overflow)
  let s := { s with
    rejectedProofResponseCounter :=
      Function.update s.rejectedProofResponseCounter zkProofId counter
    signerRejectedZKPoK := update₂ s.signerRejectedZKPoK zkProofId signer true
    rejectProofConsensusTxSenders := Function.update s.rejectProofConsensusTxSenders zkProofId
      (s.rejectProofConsensusTxSenders zkProofId ++ [tx.sender]) }
  let event := .rejectProofResponseCall zkProofId extraData
  if decidesProof tx s zkProofId (s.rejectedProofResponseCounter zkProofId) then
    return ([event, .rejectProofResponse zkProofId],
      { s with rejectedZKProofs := Function.update s.rejectedZKProofs zkProofId true })
  else
    return ([event], s)

/-! ## The contract -/

/-- The calls that can change the storage, with what the payment contract and the pauser set
answer. -/
inductive InputVerificationCall
  | verifyProofRequest (contractChainId : Nat) (contractAddress userAddress : Address)
      (ciphertextWithZKProof extraData : Bytes) (feeCollected : Bool)
  | verifyProofResponse (zkProofId : Nat) (ctHandles : List Bytes32) (signature extraData : Bytes)
  | rejectProofResponse (zkProofId : Nat) (extraData : Bytes)
  | pause (isPauser : Bool)
  | unpause
deriving DecidableEq, Repr

/-- The contract: a call comes with its sender and the configuration it meets. -/
def inputVerification : Contract (GatewayTx × InputVerificationCall) InputVerificationStorage
    InputVerificationError (List InputVerificationEvent) where
  call i s :=
    match i.2 with
    | .verifyProofRequest chainId contractAddress user ciphertext extraData feeCollected =>
      verifyProofRequest i.1 chainId contractAddress user ciphertext extraData feeCollected s
    | .verifyProofResponse id ctHandles signature extraData =>
      verifyProofResponse D i.1 id ctHandles signature extraData s
    | .rejectProofResponse id extraData => rejectProofResponse i.1 id extraData s
    | .pause isPauser => do
      let paused ← (pause D i.1 isPauser s.paused).mapError .shared
      return ([.paused i.1.sender], { s with paused := paused })
    | .unpause => do
      let paused ← (unpause D i.1 s.paused).mapError .shared
      return ([.unpaused i.1.sender], { s with paused := paused })

/-- The storage after a run from the initialised contract. -/
abbrev inputsAfter (calls : List (GatewayTx × InputVerificationCall)) : InputVerificationStorage :=
  (inputVerification D).exec .init calls

/-! ## Views -/

def getVerifyProofConsensusTxSenders (s : InputVerificationStorage) (zkProofId : Nat) :
    List Address :=
  s.verifyProofConsensusTxSenders zkProofId (s.verifyProofConsensusDigest zkProofId)

end EntryPoints

/-! ## Ballots -/

/-- What a response votes for. -/
inductive ProofAnswer
  | verified (zkProofId : Nat) (digest : Bytes32) (ctHandles : List Bytes32)
  | rejected (zkProofId : Nat)
deriving DecidableEq, Repr

def ProofAnswer.zkProofId : ProofAnswer → Nat
  | .verified zkProofId _ _ => zkProofId
  | .rejected zkProofId => zkProofId

abbrev ProofBallot := Ballot ProofAnswer GatewayConfigStorage

/-- The ballot of a response if it is accepted. -/
def proofVote (D : GatewayDeployment) (i : GatewayTx × InputVerificationCall)
    (s : InputVerificationStorage) : Option ProofBallot :=
  match i.2 with
  | .verifyProofResponse id ctHandles signature extraData =>
    let digest := s.digest D id ctHandles extraData
    (D.recover digest signature).map fun signer =>
      ⟨.verified id digest ctHandles, signer, i.1.sender, i.1.config, signature⟩
  | .rejectProofResponse id _ =>
    some ⟨.rejected id, (i.1.config.coprocessors.operators i.1.sender).signerAddress, i.1.sender,
      i.1.config, []⟩
  | _ => none

namespace InputVerificationStorage

variable (s : InputVerificationStorage) (v : ProofBallot)

/-- The votes counted for the answer, this one included. -/
def counter : Nat :=
  match v.topic with
  | .verified id digest _ => (s.zkProofSignatures id digest).length + 1
  | .rejected id => s.rejectedProofResponseCounter id + 1

/-- The ballot is the one that decides its proof. -/
def Decides : Prop :=
  s.verifiedZKProofs v.topic.zkProofId = false ∧ s.rejectedZKProofs v.topic.zkProofId = false ∧
    v.config.coprocessorThreshold ≤ s.counter v

instance : Decidable (s.Decides v) := inferInstanceAs (Decidable (_ ∧ _ ∧ _))

/-- The voter has answered the proof. -/
def Responded (zkProofId : Nat) (signer : Address) : Prop :=
  s.signerVerifiedZKPoK zkProofId signer = true ∨ s.signerRejectedZKPoK zkProofId signer = true

/-- The storage after an accepted ballot. -/
def afterBallot : InputVerificationStorage :=
  match v.topic with
  | .verified id digest _ =>
    { s with
      zkProofSignatures := update₂ s.zkProofSignatures id digest
        (s.zkProofSignatures id digest ++ [v.signature])
      signerVerifiedZKPoK := update₂ s.signerVerifiedZKPoK id v.voter true
      verifyProofConsensusTxSenders := update₂ s.verifyProofConsensusTxSenders id digest
        (s.verifyProofConsensusTxSenders id digest ++ [v.sender])
      verifiedZKProofs :=
        if s.Decides v then Function.update s.verifiedZKProofs id true else s.verifiedZKProofs
      verifyProofConsensusDigest :=
        if s.Decides v then Function.update s.verifyProofConsensusDigest id digest
        else s.verifyProofConsensusDigest }
  | .rejected id =>
    { s with
      rejectedProofResponseCounter := Function.update s.rejectedProofResponseCounter id
        (s.rejectedProofResponseCounter id + 1)
      signerRejectedZKPoK := update₂ s.signerRejectedZKPoK id v.voter true
      rejectProofConsensusTxSenders := Function.update s.rejectProofConsensusTxSenders id
        (s.rejectProofConsensusTxSenders id ++ [v.sender])
      rejectedZKProofs :=
        if s.Decides v then Function.update s.rejectedZKProofs id true else s.rejectedZKProofs }

/-- The storages agree in everything that concerns answers. -/
structure SameAnswers (s s' : InputVerificationStorage) : Prop where
  signatures : s'.zkProofSignatures = s.zkProofSignatures
  verifySenders : s'.verifyProofConsensusTxSenders = s.verifyProofConsensusTxSenders
  verified : s'.verifiedZKProofs = s.verifiedZKProofs
  signerVerified : s'.signerVerifiedZKPoK = s.signerVerifiedZKPoK
  digest : s'.verifyProofConsensusDigest = s.verifyProofConsensusDigest
  rejected : s'.rejectedZKProofs = s.rejectedZKProofs
  counter : s'.rejectedProofResponseCounter = s.rejectedProofResponseCounter
  signerRejected : s'.signerRejectedZKPoK = s.signerRejectedZKPoK
  rejectSenders : s'.rejectProofConsensusTxSenders = s.rejectProofConsensusTxSenders

end InputVerificationStorage

/-- The answer that an event declares. -/
def InputVerificationEvent.declared : InputVerificationEvent → Option (Nat × Option (List Bytes32))
  | .verifyProofResponse id ctHandles _ => some (id, some ctHandles)
  | .rejectProofResponse id => some (id, none)
  | _ => none

/-- What an answer declares if it decides. -/
def ProofAnswer.declared : ProofAnswer → Nat × Option (List Bytes32)
  | .verified id _ ctHandles => (id, some ctHandles)
  | .rejected id => (id, none)

/-! ## What a call does -/

section Calls

variable {D : GatewayDeployment} {i : GatewayTx × InputVerificationCall}
  {s s' : InputVerificationStorage} {ev : List InputVerificationEvent}

/-- What an accepted response does: its voter is the signer of a registered sender, had not
answered, and its ballot is counted. -/
structure Answered (i : GatewayTx × InputVerificationCall) (s : InputVerificationStorage)
    (ev : List InputVerificationEvent) (s' : InputVerificationStorage) (v : ProofBallot) :
    Prop where
  issued : v.topic.zkProofId ≤ s.zkProofIdCounter ∧ v.topic.zkProofId ≠ 0
  sender : v.sender = i.1.sender ∧ v.config = i.1.config
  registered : v.config.coprocessors.isTxSender v.sender = true
  record : (v.config.coprocessors.operators v.sender).signerAddress = v.voter
  fresh : ¬ s.Responded v.topic.zkProofId v.voter
  next : s' = s.afterBallot v
  declares : ∀ answer, (∃ e ∈ ev, e.declared = some answer) ↔
    s.Decides v ∧ answer = v.topic.declared

theorem verifyProofResponse_ok {id : Nat} {ctHandles : List Bytes32} {signature extraData : Bytes}
    {tx : GatewayTx} (h : verifyProofResponse D tx id ctHandles signature extraData s =
      .ok (ev, s')) :
    ∃ signer, D.recover (s.digest D id ctHandles extraData) signature = some signer ∧
      Answered (tx, .verifyProofResponse id ctHandles signature extraData) s ev s'
        ⟨.verified id (s.digest D id ctHandles extraData) ctHandles, signer, tx.sender, tx.config,
          signature⟩ := by
  simp only [verifyProofResponse, GatewayConfigChecks.onlyCoprocessorTxSender, checkProofRequested,
    GatewayConfigChecks.checkCoprocessorSignerMatchesTxSender, checkCoprocessorAlreadyResponded,
    bind_eq_ok, mapError_eq_ok, require_eq_ok, recoverSigner_eq_ok, exists_const] at h
  obtain ⟨hsender, hid, signer, hrecover, ⟨-, hrecord⟩, ⟨hverified, hrejected⟩, h⟩ := h
  generalize hdigest : s.digest D id ctHandles extraData = digest at hrecover h ⊢
  refine ⟨signer, hrecover, ?_⟩
  have hfresh : ¬ s.Responded id signer := by
    simp [InputVerificationStorage.Responded, hverified, hrejected]
  have hids : id ≤ s.zkProofIdCounter ∧ id ≠ 0 := by omega
  have hdec : s.Decides ⟨.verified id digest ctHandles, signer, tx.sender, tx.config, signature⟩ ↔
      s.verifiedZKProofs id = false ∧ s.rejectedZKProofs id = false ∧
        tx.config.coprocessorThreshold ≤ (s.zkProofSignatures id digest).length + 1 := Iff.rfl
  by_cases hd : s.Decides ⟨.verified id digest ctHandles, signer, tx.sender, tx.config, signature⟩
  · rw [if_pos (by simpa [decidesProof, and_assoc] using hdec.mp hd)] at h
    cases h
    refine ⟨hids, ⟨rfl, rfl⟩, hsender, hrecord, hfresh, ?_, fun answer => ?_⟩
    · unfold InputVerificationStorage.afterBallot
      dsimp only
      rw [if_pos hd, if_pos hd]
    · simp [hd, InputVerificationEvent.declared, ProofAnswer.declared, eq_comm]
  · rw [if_neg (by simpa [decidesProof, and_assoc] using mt hdec.mpr hd)] at h
    cases h
    refine ⟨hids, ⟨rfl, rfl⟩, hsender, hrecord, hfresh, ?_, fun answer => ?_⟩
    · unfold InputVerificationStorage.afterBallot
      dsimp only
      rw [if_neg hd, if_neg hd]
    · simp [hd, InputVerificationEvent.declared]

theorem rejectProofResponse_ok {id : Nat} {extraData : Bytes} {tx : GatewayTx}
    (h : rejectProofResponse tx id extraData s = .ok (ev, s')) :
    Answered (tx, .rejectProofResponse id extraData) s ev s' ⟨.rejected id,
      (tx.config.coprocessors.operators tx.sender).signerAddress, tx.sender, tx.config, []⟩ := by
  simp only [rejectProofResponse, GatewayConfigChecks.onlyCoprocessorTxSender, checkProofRequested,
    checkCoprocessorAlreadyResponded, bind_eq_ok, mapError_eq_ok, require_eq_ok, increment_eq_ok,
    exists_const] at h
  obtain ⟨hsender, hid, ⟨hverified, hrejected⟩, _, ⟨-, rfl⟩, h⟩ := h
  generalize hsigner : (tx.config.coprocessors.operators tx.sender).signerAddress = signer
    at hverified hrejected h ⊢
  have hfresh : ¬ s.Responded id signer := by
    simp [InputVerificationStorage.Responded, hverified, hrejected]
  have hids : id ≤ s.zkProofIdCounter ∧ id ≠ 0 := by omega
  have hdec : s.Decides ⟨.rejected id, signer, tx.sender, tx.config, []⟩ ↔
      s.verifiedZKProofs id = false ∧ s.rejectedZKProofs id = false ∧
        tx.config.coprocessorThreshold ≤ s.rejectedProofResponseCounter id + 1 := Iff.rfl
  by_cases hd : s.Decides ⟨.rejected id, signer, tx.sender, tx.config, []⟩
  · rw [if_pos (by simpa [decidesProof, and_assoc] using hdec.mp hd)] at h
    cases h
    refine ⟨hids, ⟨rfl, rfl⟩, hsender, hsigner, hfresh, ?_, fun answer => ?_⟩
    · unfold InputVerificationStorage.afterBallot
      dsimp only
      rw [if_pos hd]
    · simp [hd, InputVerificationEvent.declared, ProofAnswer.declared, eq_comm]
  · rw [if_neg (by simpa [decidesProof, and_assoc] using mt hdec.mpr hd)] at h
    cases h
    refine ⟨hids, ⟨rfl, rfl⟩, hsender, hsigner, hfresh, ?_, fun answer => ?_⟩
    · unfold InputVerificationStorage.afterBallot
      dsimp only
      rw [if_neg hd]
    · simp [hd, InputVerificationEvent.declared]

/-- A committed call is an accepted response, or it changes and declares no answer. -/
theorem inputVerification_ok (h : (inputVerification D).call i s = .ok (ev, s')) :
    (∃ v, proofVote D i s = some v ∧ Answered i s ev s' v) ∨
      (proofVote D i s = none ∧ s.SameAnswers s' ∧ ∀ e ∈ ev, e.declared = none) := by
  obtain ⟨tx, call⟩ := i
  cases call with
  | verifyProofResponse id ctHandles signature extraData =>
    obtain ⟨signer, hrecover, hanswered⟩ := verifyProofResponse_ok h
    exact .inl ⟨_, by simp [proofVote, hrecover], hanswered⟩
  | rejectProofResponse id extraData => exact .inl ⟨_, rfl, rejectProofResponse_ok h⟩
  | verifyProofRequest chainId contractAddress user ciphertext extraData feeCollected =>
    simp only [inputVerification, verifyProofRequest, bind_eq_ok, mapError_eq_ok,
      increment_eq_ok] at h
    obtain ⟨_, -, _, -, _, ⟨-, rfl⟩, _, -, h⟩ := h
    cases h
    exact .inr ⟨rfl, ⟨rfl, rfl, rfl, rfl, rfl, rfl, rfl, rfl, rfl⟩,
      by simp [InputVerificationEvent.declared]⟩
  | pause isPauser =>
    simp only [inputVerification, bind_eq_ok] at h
    obtain ⟨_, -, h⟩ := h
    cases h
    exact .inr ⟨rfl, ⟨rfl, rfl, rfl, rfl, rfl, rfl, rfl, rfl, rfl⟩,
      by simp [InputVerificationEvent.declared]⟩
  | unpause =>
    simp only [inputVerification, bind_eq_ok] at h
    obtain ⟨_, -, h⟩ := h
    cases h
    exact .inr ⟨rfl, ⟨rfl, rfl, rfl, rfl, rfl, rfl, rfl, rfl, rfl⟩,
      by simp [InputVerificationEvent.declared]⟩

end Calls

end Fhevm.Gateway
