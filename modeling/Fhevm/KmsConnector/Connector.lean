import Fhevm.Foundation.System
import Fhevm.KmsConnector.KmsResponses

/-!
# A KMS connector

Listeners store the events of the gateway, workers have them answered by the KMS core, and a sender
brings the responses to the gateway. A row that is worked on is marked in the database. The tasks
that work on it are lost when their process stops.

## Main definitions

* `ConnectorState` — the database, the tasks, and what happened so far.
* `ConnectorInput` — what can happen next, with the statements that fail.
* `connector` — the system.
-/

namespace Fhevm.KmsConnector

open Foundation Host Sdk

/-! ## Data -/

structure ConnectorDeployment where
  bc2wrap : Bc2wrap
  library : KmsLibrary
  payloads : PayloadLibrary
  config : Config
  eventsBatchSize : UInt8
  responsesBatchSize : UInt8

inductive Stage
  | picked
  | asked (request : KmsGrpcRequest)
  | answered (response : KmsResponseKind)
deriving DecidableEq, Repr

def Stage.response? : Stage → Option KmsResponseKind
  | answered response => some response
  | _ => none

/-- A task of a worker, for a row that was stored for an emission. -/
structure EventTask where
  worker : ℕ
  event : GatewayEvent
  emission : ℕ
  stage : Stage
deriving DecidableEq, Repr

def EventTask.key (task : EventTask) : RequestKey := task.event.kind.key

/-- Besides the database and the tasks, it is kept which emission of the gateway a row was inserted
for, which emissions led to a row, which were dropped for the row of which emission, and which
requests were sent. -/
structure ConnectorState where
  requests : Requests
  responses : Responses
  tasks : List EventTask
  sending : List KmsResponse
  emissionOf : RequestKey → ℕ
  inserted : List ℕ
  dropped : List (ℕ × ℕ)
  sent : List (ℕ × KmsGrpcRequest)

theorem no_requests : (([] : List RequestRow).map RequestRow.key).Nodup := .nil

theorem no_responses : (([] : List ResponseRow).map ResponseRow.key).Nodup := .nil

def ConnectorState.init : ConnectorState where
  requests := ⟨[], no_requests⟩
  responses := ⟨[], no_responses⟩
  tasks := []
  sending := []
  emissionOf _ := 0
  inserted := []
  dropped := []
  sent := []

inductive ProcessingError
  | irrecoverable
  | recoverable
deriving DecidableEq, Repr

/-- How the sending of a transaction ends. -/
inductive SendOutcome
  | succeeded
  | irrecoverable
  | recoverable
  | alloyBackendGone
deriving DecidableEq, Repr

inductive ConnectorInput
  /-- A listener receives an emission. -/
  | receive (emission : ℕ) (context : PropagationContext) (insertFails : Bool)
  /-- A worker marks rows that are pending. The answer of the database can get lost. -/
  | pickEvents (worker : ℕ) (table : RequestTable) (ids : List Bytes) (replyLost : Bool)
  /-- A task prepares its request and sends it. -/
  | send (task : ℕ) (s3 : S3Answers) (releaseFails : Bool)
  /-- A task gets an answer, or an error. -/
  | answer (task : ℕ) (answer : Except ProcessingError KmsGrpcResponse) (releaseFails : Bool)
  /-- A task stores its response. -/
  | publishResponse (task : ℕ) (insertFails releaseFails : Bool)
  /-- The sender marks rows that are pending. -/
  | pickResponses (table : ResponseTable) (ids : List Bytes) (replyLost : Bool)
  /-- A task of the sender ends. -/
  | forwardResponse (task : ℕ) (outcome : SendOutcome) (releaseFails : Bool)
  /-- A worker stops, and is started again. -/
  | stopWorker (worker : ℕ)
  /-- The sender stops, and is started again. -/
  | stopSender

/-! ## Steps -/

section Steps

variable (D : ConnectorDeployment) (emitted : List GatewayEventKind)

namespace ConnectorState

def receive (s : ConnectorState) (emission : ℕ) (context : PropagationContext)
    (insertFails : Bool) : Option ConnectorState := do
  let kind ← emitted[emission]?
  -- the error is logged
  if insertFails then return s
  match publish D.bc2wrap s.requests { kind, otlpContext := context } with
  | none => return s
  | some requests =>
    match s.requests.get? kind.key with
    | some _ => return { s with dropped := s.dropped ++ [(emission, s.emissionOf kind.key)] }
    | none =>
      return { s with
        requests
        emissionOf := Function.update s.emissionOf kind.key emission
        inserted := s.inserted ++ [emission] }

/-- The limit of a pick. -/
def eventsLimit : RequestTable → ℕ
  | .publicDecryptionRequests | .userDecryptionRequests => D.eventsBatchSize.toNat
  | _ => 1

theorem lawfulBEq_bytes : LawfulBEq Bytes := inferInstance

attribute [local instance] lawfulBEq_bytes

def markPicked (requests : Requests) (table : RequestTable) (ids : List Bytes) : Requests :=
  requests.update (fun row => row.key.1 = table ∧ row.key.2 ∈ ids)
    (fun row => { row with underProcess := true }) fun _ => rfl

def pickedTask (s : ConnectorState) (worker : ℕ) (row : RequestRow) : Option EventTask := do
  let event ← row.event D.bc2wrap
  return { worker, event, emission := s.emissionOf row.key, stage := .picked }

/-- A row that cannot be read makes all rows of the pick be given up. -/
def pickEvents (s : ConnectorState) (worker : ℕ) (table : RequestTable) (ids : List Bytes)
    (replyLost : Bool) : Option ConnectorState := do
  guard (ids.Nodup ∧ ids.length ≤ eventsLimit D table)
  let rows ← ids.mapM fun id => s.requests.get? (table, id)
  guard (rows.all (fun row => !row.underProcess) = true)
  let tasks := if replyLost then none else rows.mapM (s.pickedTask D worker)
  return { s with
    requests := markPicked s.requests table ids
    tasks := s.tasks ++ tasks.getD [] }

/-- What becomes of a request after an error. -/
def afterError (requests : Requests) (kind : GatewayEventKind) : ProcessingError → Requests
  | .irrecoverable => deleteFromDb requests kind.key
  | .recoverable =>
    match kind with
    | .prssInit _ | .keyReshareSameSet _ _ _ _ => deleteFromDb requests kind.key
    | _ => markAsPending requests kind.pendingKey

/-- A task ends, with a last statement that can fail. -/
def endTask (s : ConnectorState) (task : ℕ) (requests : Requests) (fails : Bool) :
    ConnectorState :=
  { s with
    requests := if fails then s.requests else requests
    tasks := s.tasks.eraseIdx task }

def send (s : ConnectorState) (i : ℕ) (s3 : S3Answers) (releaseFails : Bool) :
    Option ConnectorState := do
  let task ← s.tasks[i]?
  guard (task.stage = .picked)
  match prepareRequest D.library D.config s3 task.event.kind with
  | none =>
    return s.endTask i (afterError s.requests task.event.kind .recoverable) releaseFails
  | some request =>
    return { s with
      tasks := s.tasks.set i { task with stage := .asked request }
      sent := s.sent ++ [(task.emission, request)] }

def answer (s : ConnectorState) (i : ℕ) (answer : Except ProcessingError KmsGrpcResponse)
    (releaseFails : Bool) : Option ConnectorState := do
  let task ← s.tasks[i]?
  match task.stage, answer with
  | .asked _, .error e =>
    return s.endTask i (afterError s.requests task.event.kind e) releaseFails
  | .asked request, .ok response =>
    guard (request.answeredBy response = true)
    match response.process D.payloads with
    | some kind => return { s with tasks := s.tasks.set i { task with stage := .answered kind } }
    -- also when no response is expected
    | none => return s.endTask i (deleteFromDb s.requests task.event.kind.key) releaseFails
  | _, _ => none

/-- The tables with a response, unless the insertion fails. -/
def published (s : ConnectorState) (response : KmsResponse) (insertFails : Bool) :
    Option (Requests × Responses) :=
  if insertFails then none
  else KmsConnector.publishResponse D.bc2wrap s.requests s.responses response

def publishResponse (s : ConnectorState) (i : ℕ) (insertFails releaseFails : Bool) :
    Option ConnectorState := do
  let task ← s.tasks[i]?
  match task.stage with
  | .answered kind =>
    match s.published D { kind, otlpContext := task.event.otlpContext } insertFails with
    | some (requests, responses) =>
      return { s with requests, responses, tasks := s.tasks.eraseIdx i }
    | none => return s.endTask i (markAssociatedEventAsPending s.requests kind) releaseFails
  | _ => none

def markResponsesPicked (responses : Responses) (table : ResponseTable) (ids : List Bytes) :
    Responses :=
  responses.update (fun row => row.key.1 = table ∧ row.key.2 ∈ ids)
    (fun row => { row with underProcess := true }) fun _ => rfl

def pickResponses (s : ConnectorState) (table : ResponseTable) (ids : List Bytes)
    (replyLost : Bool) : Option ConnectorState := do
  guard (ids.Nodup ∧ ids.length ≤ D.responsesBatchSize.toNat)
  let rows ← ids.mapM fun id => s.responses.get? (table, id)
  guard (rows.all (fun row => !row.underProcess) = true)
  let picked := if replyLost then none else rows.mapM fun row => row.response D.bc2wrap
  return { s with
    responses := markResponsesPicked s.responses table ids
    sending := s.sending ++ picked.getD [] }

def forwardResponse (s : ConnectorState) (i : ℕ) (outcome : SendOutcome) (releaseFails : Bool) :
    Option ConnectorState := do
  let response ← s.sending[i]?
  let responses := match outcome with
    | .recoverable | .alloyBackendGone => markResponseAsPending s.responses response.kind.key
    | .succeeded | .irrecoverable => removeResponse s.responses response.kind.key
  return { s with
    responses := if releaseFails then s.responses else responses
    sending := s.sending.eraseIdx i }

def step (s : ConnectorState) : ConnectorInput → Option ConnectorState
  | .receive emission context insertFails => s.receive D emitted emission context insertFails
  | .pickEvents worker table ids replyLost => s.pickEvents D worker table ids replyLost
  | .send i s3 releaseFails => s.send D i s3 releaseFails
  | .answer i answer releaseFails => s.answer D i answer releaseFails
  | .publishResponse i insertFails releaseFails => s.publishResponse D i insertFails releaseFails
  | .pickResponses table ids replyLost => s.pickResponses D table ids replyLost
  | .forwardResponse i outcome releaseFails => s.forwardResponse i outcome releaseFails
  | .stopWorker worker => some { s with tasks := s.tasks.filter fun task => task.worker ≠ worker }
  | .stopSender => some { s with sending := [] }

end ConnectorState

/-! ## What a step does -/

namespace ConnectorState

variable {D emitted} {s s' : ConnectorState}

theorem receive_cases {emission : ℕ} {context : PropagationContext} {insertFails : Bool}
    (h : s.receive D emitted emission context insertFails = some s') :
    ∃ kind, emitted[emission]? = some kind ∧
      ((s' = s ∧ (insertFails = true ∨
          publish D.bc2wrap s.requests { kind, otlpContext := context } = none)) ∨
        ∃ requests, publish D.bc2wrap s.requests { kind, otlpContext := context } = some requests ∧
          ((∃ row, s.requests.get? kind.key = some row ∧
              s' = { s with dropped := s.dropped ++ [(emission, s.emissionOf kind.key)] }) ∨
            (s.requests.get? kind.key = none ∧
              s' = { s with
                requests
                emissionOf := Function.update s.emissionOf kind.key emission
                inserted := s.inserted ++ [emission] }))) := by
  obtain ⟨kind, hkind, h⟩ := Option.bind_eq_some_iff.mp h
  refine ⟨kind, hkind, ?_⟩
  split_ifs at h with hfails
  · exact .inl ⟨(Option.some.inj h).symm, .inl hfails⟩
  · split at h
    · next hnone => exact .inl ⟨(Option.some.inj h).symm, .inr hnone⟩
    · next requests hpublish =>
      refine .inr ⟨requests, hpublish, ?_⟩
      split at h
      · next row hrow => exact .inl ⟨row, hrow, (Option.some.inj h).symm⟩
      · next hnone => exact .inr ⟨hnone, (Option.some.inj h).symm⟩

theorem pickEvents_cases {worker : ℕ} {table : RequestTable} {ids : List Bytes} {replyLost : Bool}
    (h : s.pickEvents D worker table ids replyLost = some s') :
    ∃ rows, ids.mapM (fun id => s.requests.get? (table, id)) = some rows ∧
      s' = { s with
        requests := markPicked s.requests table ids
        tasks := s.tasks ++
          (if replyLost then none else rows.mapM (s.pickedTask D worker)).getD [] } := by
  simp only [pickEvents, Option.bind_eq_bind, Option.bind_eq_some_iff, Option.pure_def,
    Option.some.injEq] at h
  obtain ⟨_, -, rows, hrows, _, -, rfl⟩ := h
  exact ⟨rows, hrows, rfl⟩

theorem send_cases {i : ℕ} {s3 : S3Answers} {releaseFails : Bool}
    (h : s.send D i s3 releaseFails = some s') :
    ∃ task, s.tasks[i]? = some task ∧
      (s' = s.endTask i (afterError s.requests task.event.kind .recoverable) releaseFails ∨
        ∃ request, prepareRequest D.library D.config s3 task.event.kind = some request ∧
          s' = { s with
            tasks := s.tasks.set i { task with stage := .asked request }
            sent := s.sent ++ [(task.emission, request)] }) := by
  simp only [send, Option.bind_eq_bind, Option.bind_eq_some_iff] at h
  obtain ⟨task, htask, _, -, h⟩ := h
  refine ⟨task, htask, ?_⟩
  split at h
  · exact .inl (Option.some.inj h).symm
  · next request hrequest => exact .inr ⟨request, hrequest, (Option.some.inj h).symm⟩

theorem answer_cases {i : ℕ} {answer : Except ProcessingError KmsGrpcResponse}
    {releaseFails : Bool} (h : s.answer D i answer releaseFails = some s') :
    ∃ task, s.tasks[i]? = some task ∧
      ((∃ e, s' = s.endTask i (afterError s.requests task.event.kind e) releaseFails) ∨
        ∃ kind, s' = { s with tasks := s.tasks.set i { task with stage := .answered kind } }) := by
  obtain ⟨task, htask, h⟩ := Option.bind_eq_some_iff.mp h
  refine ⟨task, htask, ?_⟩
  split at h
  · exact .inl ⟨_, (Option.some.inj h).symm⟩
  · obtain ⟨_, -, h⟩ := Option.bind_eq_some_iff.mp h
    split at h
    · next kind _ => exact .inr ⟨kind, (Option.some.inj h).symm⟩
    · exact .inl ⟨.irrecoverable, (Option.some.inj h).symm⟩
  · cases h

theorem publishResponse_cases {i : ℕ} {insertFails releaseFails : Bool}
    (h : s.publishResponse D i insertFails releaseFails = some s') :
    ∃ task kind, s.tasks[i]? = some task ∧ task.stage = .answered kind ∧
      (s' = s.endTask i (markAssociatedEventAsPending s.requests kind) releaseFails ∨
        ∃ requests responses, insertFails = false ∧
          KmsConnector.publishResponse D.bc2wrap s.requests s.responses
            { kind, otlpContext := task.event.otlpContext } = some (requests, responses) ∧
          s' = { s with requests, responses, tasks := s.tasks.eraseIdx i }) := by
  obtain ⟨task, htask, h⟩ := Option.bind_eq_some_iff.mp h
  split at h
  · next kind hstage =>
    refine ⟨task, kind, htask, hstage, ?_⟩
    split at h
    · next requests responses hpublished =>
      unfold published at hpublished
      split_ifs at hpublished with hfails
      exact .inr ⟨requests, responses, by simpa using hfails, hpublished, (Option.some.inj h).symm⟩
    · exact .inl (Option.some.inj h).symm
  · cases h

theorem pickResponses_cases {table : ResponseTable} {ids : List Bytes} {replyLost : Bool}
    (h : s.pickResponses D table ids replyLost = some s') :
    ∃ rows, ids.mapM (fun id => s.responses.get? (table, id)) = some rows ∧
      s' = { s with
        responses := markResponsesPicked s.responses table ids
        sending := s.sending ++
          (if replyLost then none else rows.mapM fun row => row.response D.bc2wrap).getD [] } := by
  simp only [pickResponses, Option.bind_eq_bind, Option.bind_eq_some_iff, Option.pure_def,
    Option.some.injEq] at h
  obtain ⟨_, -, rows, hrows, _, -, rfl⟩ := h
  exact ⟨rows, hrows, rfl⟩

theorem forwardResponse_cases {i : ℕ} {outcome : SendOutcome} {releaseFails : Bool}
    (h : s.forwardResponse i outcome releaseFails = some s') :
    ∃ response responses, s.sending[i]? = some response ∧
      (responses = markResponseAsPending s.responses response.kind.key ∨
        responses = removeResponse s.responses response.kind.key) ∧
      s' = { s with
        responses := if releaseFails then s.responses else responses
        sending := s.sending.eraseIdx i } := by
  obtain ⟨response, hresponse, h⟩ := Option.bind_eq_some_iff.mp h
  refine ⟨response, _, hresponse, ?_, (Option.some.inj h).symm⟩
  cases outcome with
  | recoverable | alloyBackendGone => exact .inl rfl
  | succeeded | irrecoverable => exact .inr rfl

end ConnectorState

/-- The connector of a KMS node, for the events that the gateway emits. -/
def connector : System ConnectorState ConnectorInput where
  init := .init
  step := ConnectorState.step D emitted

end Steps

/-! ## Samples -/

def sampleConnector : ConnectorDeployment where
  bc2wrap := sampleBc2wrap
  library := sampleKmsLibrary
  payloads := ⟨fun _ => some [], some⟩
  config := sampleConfig
  eventsBatchSize := 10
  responsesBatchSize := 10

def noS3 : S3Answers := ⟨fun _ => none, fun _ _ => none⟩

end Fhevm.KmsConnector
