import Fhevm.Foundation.Component
import Fhevm.Gateway.Quorums

/-!
# The gateway as a whole

The contracts of the gateway live on one chain: each call meets the configuration and the
storages of the other contracts as they are at that time, and the owner can change the
configuration between any two calls.

## Main definitions

* `GatewayState` — the storages of the contracts.
* `gateway` — the contracts as one contract.
* `decryptionPart`, `inputsPart`, … — each of them as a component of it.
* `gatewayVotes` — the accepted ballots of a run, of all contracts.
-/

namespace Fhevm.Gateway

open Foundation Contract Host

/-! ## Data -/

/-- The deployment with the hashes that the key generation and the delegations use. -/
structure GatewayChain extends GatewayDeployment where
  hashVerification : Verification → Bytes32
  hashDelegation : DelegationArgs → Bytes32

def GatewayChain.kmsEip712 (G : GatewayChain) : Eip712 := ⟨G.hashVerification, G.recover⟩

structure GatewayState where
  config : GatewayConfigStorage
  decryption : DecryptionStorage
  inputs : InputVerificationStorage
  kms : KMSGenerationStorage
  commits : CiphertextCommitsStorage
  allows : MultichainACLAllows
  delegations : MultichainACLState

/-- The contracts after their deployment by the owner. -/
def GatewayState.init (owner : Address) : GatewayState where
  config := .emptyProxy owner
  decryption := .init
  inputs := .init
  kms := initializeFromEmptyProxy
  commits := .init
  allows := .init
  delegations := .init

inductive GatewayCall
  | config (call : GatewayConfigCall)
  | decryption (call : DecryptionCall)
  | inputs (call : InputVerificationCall)
  | kms (call : KMSGenerationCall)
  | commits (report : AddCiphertextMaterial)
  | allow (report : AllowCall)
  | delegation (report : Report) (args : DelegationArgs)

inductive GatewayError
  | config (e : GatewayConfigError)
  | decryption (e : DecryptionError)
  | inputs (e : InputVerificationError)
  | kms (e : KMSGenerationError)
  | commits (e : CiphertextCommitsError)
  | allow (e : AllowError)
  | delegation (e : MultichainACLError)

inductive GatewayEvents
  | config
  | decryption (ev : List DecryptionEvent)
  | inputs (ev : List InputVerificationEvent)
  | kms (ev : List KMSGenerationEvent)
  | commits (ev : List CiphertextCommitsEvent)
  | allow (ev : List AllowEvent)
  | delegation (ev : List MultichainACLEvent)

/-! ## The contract -/

/-- What the key generation asks of the configuration. -/
def GatewayConfigStorage.forKms (config : GatewayConfigStorage) : GatewayConfig where
  owner := config.owner
  isKmsTxSender := config.kms.isTxSender
  isKmsSigner := config.kms.isSigner
  getKmsNode a := ⟨(config.kms.operators a).signerAddress, (config.kms.operators a).url⟩
  getKmsGenThreshold := config.kmsGenThreshold

/-- A request for a decryption asks the contracts of the gateway as they are. -/
def RequestEnv.inGateway (env : RequestEnv) (s : GatewayState) : RequestEnv :=
  { env with acl := s.allows, commits := s.commits }

def DecryptionCall.inGateway (call : DecryptionCall) (s : GatewayState) : DecryptionCall :=
  match call with
  | .publicDecryptionRequest ctHandles extraData env =>
    .publicDecryptionRequest ctHandles extraData (env.inGateway s)
  | .userDecryptionRequest request env => .userDecryptionRequest request (env.inGateway s)
  | .publicDecryptionResponse id result signature extraData =>
    .publicDecryptionResponse id result signature extraData
  | .userDecryptionResponse id share signature extraData =>
    .userDecryptionResponse id share signature extraData
  | .pause isPauser => .pause isPauser
  | .unpause => .unpause

/-- The contracts as one contract. -/
def gateway (G : GatewayChain) :
    Contract (Address × GatewayCall) GatewayState GatewayError GatewayEvents where
  call i s :=
    let tx : GatewayTx := ⟨i.1, s.config⟩
    match i.2 with
    | .config call => gatewayConfig.onPart (i.1, call) s.config .config (fun _ => .config)
        fun config => { s with config }
    | .decryption call => (decryption G.toGatewayDeployment).onPart (tx, call.inGateway s)
        s.decryption .decryption .decryption fun decryption => { s with decryption }
    | .inputs call => (inputVerification G.toGatewayDeployment).onPart (tx, call) s.inputs
        .inputs .inputs fun inputs => { s with inputs }
    | .kms call => (kmsGeneration G.kmsEip712).onPart (⟨i.1, s.config.forKms⟩, call) s.kms
        .kms .kms fun kms => { s with kms }
    | .commits report => (ciphertextCommits G.toGatewayDeployment).onPart (tx, report) s.commits
        .commits .commits fun commits => { s with commits }
    | .allow report => (allows G.toGatewayDeployment).onPart (tx, report) s.allows
        .allow .allow fun allows => { s with allows }
    | .delegation report args => (delegations G.hashDelegation).onPart (tx, report, args)
        s.delegations .delegation .delegation fun delegations => { s with delegations }

/-- The state after a run of the gateway that the owner deployed. -/
abbrev gatewayAfter (G : GatewayChain) (owner : Address) (calls : List (Address × GatewayCall)) :
    GatewayState :=
  (gateway G).exec (.init owner) calls

/-! ## Its components -/

section Components

variable (G : GatewayChain)

/-- What a call leaves the contracts in. -/
theorem step_gateway (sender : Address) (call : GatewayCall) (s : GatewayState) :
    (gateway G).step (sender, call) s =
      match call with
      | .config call => { s with config := gatewayConfig.step (sender, call) s.config }
      | .decryption call =>
        { s with
          decryption := (decryption G.toGatewayDeployment).step
            (⟨sender, s.config⟩, call.inGateway s) s.decryption }
      | .inputs call =>
        { s with
          inputs := (inputVerification G.toGatewayDeployment).step (⟨sender, s.config⟩, call)
            s.inputs }
      | .kms call =>
        { s with
          kms := (kmsGeneration G.kmsEip712).step (⟨sender, s.config.forKms⟩, call) s.kms }
      | .commits report =>
        { s with
          commits := (ciphertextCommits G.toGatewayDeployment).step (⟨sender, s.config⟩, report)
            s.commits }
      | .allow report =>
        { s with
          allows := (allows G.toGatewayDeployment).step (⟨sender, s.config⟩, report) s.allows }
      | .delegation report args =>
        { s with
          delegations := (delegations G.hashDelegation).step (⟨sender, s.config⟩, report, args)
            s.delegations } := by
  cases call <;> exact step_onPart rfl rfl rfl

def decryptionPart : Component (gateway G) (decryption G.toGatewayDeployment) :=
  .ofPart GatewayState.decryption
    (fun i s =>
      match i.2 with
      | .decryption call => some (⟨i.1, s.config⟩, call.inGateway s)
      | _ => none)
    (by
      rintro ⟨sender, call⟩ s k h
      cases call <;> cases h
      exact ⟨_, _, _, rfl, rfl, fun _ => rfl⟩)
    (by
      rintro ⟨sender, call⟩ s h
      cases call <;> first | (simp only [step_gateway]; done) | cases h)

def inputsPart : Component (gateway G) (inputVerification G.toGatewayDeployment) :=
  .ofPart GatewayState.inputs
    (fun i s =>
      match i.2 with
      | .inputs call => some (⟨i.1, s.config⟩, call)
      | _ => none)
    (by
      rintro ⟨sender, call⟩ s k h
      cases call <;> cases h
      exact ⟨_, _, _, rfl, rfl, fun _ => rfl⟩)
    (by
      rintro ⟨sender, call⟩ s h
      cases call <;> first | (simp only [step_gateway]; done) | cases h)

def kmsPart : Component (gateway G) (kmsGeneration G.kmsEip712) :=
  .ofPart GatewayState.kms
    (fun i s =>
      match i.2 with
      | .kms call => some (⟨i.1, s.config.forKms⟩, call)
      | _ => none)
    (by
      rintro ⟨sender, call⟩ s k h
      cases call <;> cases h
      exact ⟨_, _, _, rfl, rfl, fun _ => rfl⟩)
    (by
      rintro ⟨sender, call⟩ s h
      cases call <;> first | (simp only [step_gateway]; done) | cases h)

def commitsPart : Component (gateway G) (ciphertextCommits G.toGatewayDeployment) :=
  .ofPart GatewayState.commits
    (fun i s =>
      match i.2 with
      | .commits report => some (⟨i.1, s.config⟩, report)
      | _ => none)
    (by
      rintro ⟨sender, call⟩ s k h
      cases call <;> cases h
      exact ⟨_, _, _, rfl, rfl, fun _ => rfl⟩)
    (by
      rintro ⟨sender, call⟩ s h
      cases call <;> first | (simp only [step_gateway]; done) | cases h)

def allowsPart : Component (gateway G) (allows G.toGatewayDeployment) :=
  .ofPart GatewayState.allows
    (fun i s =>
      match i.2 with
      | .allow report => some (⟨i.1, s.config⟩, report)
      | _ => none)
    (by
      rintro ⟨sender, call⟩ s k h
      cases call <;> cases h
      exact ⟨_, _, _, rfl, rfl, fun _ => rfl⟩)
    (by
      rintro ⟨sender, call⟩ s h
      cases call <;> first | (simp only [step_gateway]; done) | cases h)

def delegationsPart : Component (gateway G) (delegations G.hashDelegation) :=
  .ofPart GatewayState.delegations
    (fun i s =>
      match i.2 with
      | .delegation report args => some (⟨i.1, s.config⟩, report, args)
      | _ => none)
    (by
      rintro ⟨sender, call⟩ s k h
      cases call <;> cases h
      exact ⟨_, _, _, rfl, rfl, fun _ => rfl⟩)
    (by
      rintro ⟨sender, call⟩ s h
      cases call <;> first | (simp only [step_gateway]; done) | cases h)

section Configs

variable {G} {i : Address × GatewayCall} {s : GatewayState}

theorem decryptionPart_config {k : GatewayTx × DecryptionCall} (h : (decryptionPart G).callOf i s = some k) :
    k.1.config = s.config := by
  obtain ⟨sender, call⟩ := i
  cases call <;> cases h
  rfl

theorem inputsPart_config {k : GatewayTx × InputVerificationCall} (h : (inputsPart G).callOf i s = some k) :
    k.1.config = s.config := by
  obtain ⟨sender, call⟩ := i
  cases call <;> cases h
  rfl

theorem kmsPart_config {k : Msg × KMSGenerationCall} (h : (kmsPart G).callOf i s = some k) :
    k.1.config = s.config.forKms := by
  obtain ⟨sender, call⟩ := i
  cases call <;> cases h
  rfl

theorem commitsPart_config {k : GatewayTx × AddCiphertextMaterial} (h : (commitsPart G).callOf i s = some k) :
    k.1.config = s.config := by
  obtain ⟨sender, call⟩ := i
  cases call <;> cases h
  rfl

theorem allowsPart_config {k : GatewayTx × AllowCall} (h : (allowsPart G).callOf i s = some k) :
    k.1.config = s.config := by
  obtain ⟨sender, call⟩ := i
  cases call <;> cases h
  rfl

theorem delegationsPart_config {k : GatewayTx × Report × DelegationArgs} (h : (delegationsPart G).callOf i s = some k) :
    k.1.config = s.config := by
  obtain ⟨sender, call⟩ := i
  cases call <;> cases h
  rfl

end Configs

end Components

/-! ## Its ballots -/

/-- What a ballot is about. -/
inductive Topic
  | decryption (answer : DecryptionAnswer)
  | proof (answer : ProofAnswer)
  | kms (response : Nat × Bytes32)
  | material (args : AddCiphertextMaterial)
  | allow (target : AllowTarget)
  | delegation (report : Report × Bytes32)
deriving DecidableEq, Repr

namespace Topic

def decryption? : Topic → Option DecryptionAnswer
  | .decryption answer => some answer
  | _ => none

def proof? : Topic → Option ProofAnswer
  | .proof answer => some answer
  | _ => none

def kms? : Topic → Option (Nat × Bytes32)
  | .kms response => some response
  | _ => none

def material? : Topic → Option AddCiphertextMaterial
  | .material args => some args
  | _ => none

def allow? : Topic → Option AllowTarget
  | .allow target => some target
  | _ => none

def delegation? : Topic → Option (Report × Bytes32)
  | .delegation report => some report
  | _ => none

end Topic

abbrev GatewayBallot := Ballot Topic GatewayConfigStorage

/-- The ballot of a call if it is accepted, with the configuration that it meets. -/
def gatewayVote (G : GatewayChain) (i : Address × GatewayCall) (s : GatewayState) :
    Option GatewayBallot :=
  let tx : GatewayTx := ⟨i.1, s.config⟩
  match i.2 with
  | .config _ => none
  | .decryption call =>
    (decryptionVote G.toGatewayDeployment (tx, call.inGateway s) s.decryption).map
      (Ballot.lift .decryption s.config)
  | .inputs call =>
    (proofVote G.toGatewayDeployment (tx, call) s.inputs).map
      (Ballot.lift .proof s.config)
  | .kms call =>
    (kmsVote G.kmsEip712 (⟨i.1, s.config.forKms⟩, call) s.kms).map
      (Ballot.lift .kms s.config)
  | .commits report =>
    (materialVote (tx, report) s.commits).map (Ballot.lift .material s.config)
  | .allow report =>
    (allowVote (tx, report) s.allows).map (Ballot.lift .allow s.config)
  | .delegation report args =>
    (delegationVote G.hashDelegation (tx, report, args) s.delegations).map
      (Ballot.lift .delegation s.config)

/-- The accepted ballots of a run, oldest first. -/
def gatewayVotes (G : GatewayChain) (owner : Address) (calls : List (Address × GatewayCall)) :
    List GatewayBallot :=
  (gateway G).votes (.init owner) (gatewayVote G) calls

section Votes

variable {G : GatewayChain} {owner : Address} {calls : List (Address × GatewayCall)}

theorem decryptionVote_sent {D : GatewayDeployment} {i : GatewayTx × DecryptionCall}
    {s : DecryptionStorage} {v : DecryptionBallot} (h : decryptionVote D i s = some v) :
    v.sender = i.1.sender ∧ v.config = i.1.config := by
  obtain ⟨tx, call⟩ := i
  cases call with
  | publicDecryptionResponse =>
    obtain ⟨signer, -, rfl⟩ := Option.map_eq_some_iff.mp h
    exact ⟨rfl, rfl⟩
  | userDecryptionResponse =>
    obtain ⟨signer, -, rfl⟩ := Option.map_eq_some_iff.mp h
    exact ⟨rfl, rfl⟩
  | publicDecryptionRequest => cases h
  | userDecryptionRequest => cases h
  | pause => cases h
  | unpause => cases h

theorem proofVote_sent {D : GatewayDeployment} {i : GatewayTx × InputVerificationCall}
    {s : InputVerificationStorage} {v : ProofBallot} (h : proofVote D i s = some v) :
    v.sender = i.1.sender ∧ v.config = i.1.config := by
  obtain ⟨tx, call⟩ := i
  cases call with
  | verifyProofResponse =>
    obtain ⟨signer, -, rfl⟩ := Option.map_eq_some_iff.mp h
    exact ⟨rfl, rfl⟩
  | rejectProofResponse =>
    cases h
    exact ⟨rfl, rfl⟩
  | verifyProofRequest => cases h
  | pause => cases h
  | unpause => cases h

theorem kmsVote_sent {E : Eip712} {i : Msg × KMSGenerationCall} {s : KMSGenerationStorage}
    {v : KmsBallot} (h : kmsVote E i s = some v) :
    v.sender = i.1.sender ∧ v.config = i.1.config := by
  obtain ⟨⟨kind, id, signature⟩, -, h⟩ := Option.bind_eq_some_iff.mp h
  obtain ⟨signer, -, rfl⟩ := Option.map_eq_some_iff.mp h
  exact ⟨rfl, rfl⟩

/-- A ballot has the sender of the call and the configuration of that time. -/
theorem gatewayVote_sent {i : Address × GatewayCall} {s : GatewayState} {v : GatewayBallot}
    (h : gatewayVote G i s = some v) : v.sender = i.1 ∧ v.config = s.config := by
  obtain ⟨sender, call⟩ := i
  cases call with
  | config => cases h
  | decryption =>
    obtain ⟨b, hb, rfl⟩ := Option.map_eq_some_iff.mp h
    exact ⟨(decryptionVote_sent hb).1, rfl⟩
  | inputs =>
    obtain ⟨b, hb, rfl⟩ := Option.map_eq_some_iff.mp h
    exact ⟨(proofVote_sent hb).1, rfl⟩
  | kms =>
    obtain ⟨b, hb, rfl⟩ := Option.map_eq_some_iff.mp h
    exact ⟨(kmsVote_sent hb).1, rfl⟩
  | commits =>
    cases h
    exact ⟨rfl, rfl⟩
  | allow =>
    cases h
    exact ⟨rfl, rfl⟩
  | delegation =>
    cases h
    exact ⟨rfl, rfl⟩

/-- A ballot comes back from the gateway as it was. -/
theorem share_lift {κ γ : Type} {o : Option (Ballot κ γ)} {topicOf : κ → Topic}
    {topic : Topic → Option κ} {view : GatewayConfigStorage → γ} {config : GatewayConfigStorage}
    (htopic : ∀ t, topic (topicOf t) = some t) (hconfig : ∀ b, o = some b → b.config = view config) :
    o = (o.map (Ballot.lift topicOf config)).bind (Ballot.share topic view) := by
  cases o with
  | none => rfl
  | some b =>
    have hb := hconfig b rfl
    obtain ⟨t, voter, sender, config', signature⟩ := b
    simp only at hb
    simp [Ballot.share, Ballot.lift, htopic, hb]

/-- A ballot of another contract is none of this one. -/
theorem share_other {κ κ' γ γ' : Type} {o : Option (Ballot κ γ)} {topicOf : κ → Topic}
    {topic : Topic → Option κ'} {view : GatewayConfigStorage → γ'} {config : GatewayConfigStorage}
    (htopic : ∀ t, topic (topicOf t) = none) :
    none = (o.map (Ballot.lift topicOf config)).bind (Ballot.share topic view) := by
  cases o with
  | none => rfl
  | some b => simp [Ballot.share, Ballot.lift, htopic]

theorem decryption_shares :
    decryptionVotes G.toGatewayDeployment ((decryptionPart G).calls (.init owner) calls) =
      (gatewayVotes G owner calls).filterMap
        (Ballot.share Topic.decryption? id) := by
  refine (decryptionPart G).votes_calls (.init owner) (gatewayVote G)
    (decryptionVote G.toGatewayDeployment) ?_ calls
  rintro ⟨sender, call⟩ s
  cases call with
  | decryption => exact share_lift (fun _ => rfl) fun b hb => (decryptionVote_sent hb).2
  | inputs => exact share_other fun _ => rfl
  | kms => exact share_other fun _ => rfl
  | _ => rfl

theorem proof_shares :
    proofVotes G.toGatewayDeployment ((inputsPart G).calls (.init owner) calls) =
      (gatewayVotes G owner calls).filterMap
        (Ballot.share Topic.proof? id) := by
  refine (inputsPart G).votes_calls (.init owner) (gatewayVote G)
    (proofVote G.toGatewayDeployment) ?_ calls
  rintro ⟨sender, call⟩ s
  cases call with
  | inputs => exact share_lift (fun _ => rfl) fun b hb => (proofVote_sent hb).2
  | decryption => exact share_other fun _ => rfl
  | kms => exact share_other fun _ => rfl
  | _ => rfl

theorem kms_shares :
    kmsVotes G.kmsEip712 ((kmsPart G).calls (.init owner) calls) =
      (gatewayVotes G owner calls).filterMap
        (Ballot.share Topic.kms? GatewayConfigStorage.forKms) := by
  refine (kmsPart G).votes_calls (.init owner) (gatewayVote G)
    (kmsVote G.kmsEip712) ?_ calls
  rintro ⟨sender, call⟩ s
  cases call with
  | kms => exact share_lift (fun _ => rfl) fun b hb => (kmsVote_sent hb).2
  | decryption => exact share_other fun _ => rfl
  | inputs => exact share_other fun _ => rfl
  | _ => rfl

theorem material_shares :
    materialVotes G.toGatewayDeployment ((commitsPart G).calls (.init owner) calls) =
      (gatewayVotes G owner calls).filterMap
        (Ballot.share Topic.material? id) := by
  refine (commitsPart G).votes_calls (.init owner) (gatewayVote G)
    materialVote ?_ calls
  rintro ⟨sender, call⟩ s
  cases call with
  | commits => exact share_lift (fun _ => rfl) fun b hb => Option.some.inj hb ▸ rfl
  | decryption => exact share_other fun _ => rfl
  | inputs => exact share_other fun _ => rfl
  | kms => exact share_other fun _ => rfl
  | _ => rfl

theorem allow_shares :
    allowVotes G.toGatewayDeployment ((allowsPart G).calls (.init owner) calls) =
      (gatewayVotes G owner calls).filterMap
        (Ballot.share Topic.allow? id) := by
  refine (allowsPart G).votes_calls (.init owner) (gatewayVote G)
    allowVote ?_ calls
  rintro ⟨sender, call⟩ s
  cases call with
  | allow => exact share_lift (fun _ => rfl) fun b hb => Option.some.inj hb ▸ rfl
  | decryption => exact share_other fun _ => rfl
  | inputs => exact share_other fun _ => rfl
  | kms => exact share_other fun _ => rfl
  | _ => rfl

theorem delegation_shares :
    delegationVotes G.hashDelegation ((delegationsPart G).calls (.init owner) calls) =
      (gatewayVotes G owner calls).filterMap
        (Ballot.share Topic.delegation? id) := by
  refine (delegationsPart G).votes_calls (.init owner) (gatewayVote G)
    (delegationVote G.hashDelegation) ?_ calls
  rintro ⟨sender, call⟩ s
  cases call with
  | delegation => exact share_lift (fun _ => rfl) fun b hb => Option.some.inj hb ▸ rfl
  | decryption => exact share_other fun _ => rfl
  | inputs => exact share_other fun _ => rfl
  | kms => exact share_other fun _ => rfl
  | _ => rfl

end Votes

end Fhevm.Gateway
