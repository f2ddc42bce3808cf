import Fhevm.Foundation.Lease
import Fhevm.KmsConnector.Connector

/-!
# Who works on a row

A marked row has a task that works on it as long as no process stops with tasks, no statement that
ends a task fails, the rows of a pick can be read, and the KMS core answers each request once and
under its id. Nobody finds the mark of a task that was lost.

## Main definitions

* `Owned` — every marked row has a task.
* `Released` — what is needed of the next input.
* `owned_of_released` — then every marked row has a task.
-/

namespace Fhevm.KmsConnector

open Foundation Host Sdk

/-- Every row is pending, or a task works on it. -/
structure Owned (s : ConnectorState) : Prop where
  requests : s.requests.Held RequestRow.underProcess (s.tasks.map EventTask.key)
  responses : s.responses.Held ResponseRow.underProcess
    (s.sending.map fun response => response.kind.key)

/-- No mark is left behind by what happens next. -/
def Released (D : ConnectorDeployment) (s : ConnectorState) : ConnectorInput → Prop
  | .receive _ _ _ => True
  | .pickEvents _ table ids replyLost => replyLost = false ∧
    ∀ id ∈ ids, ∀ row ∈ s.requests.get? (table, id), (row.event D.bc2wrap).isSome
  | .send _ _ releaseFails | .answer _ _ releaseFails => releaseFails = false
  | .publishResponse i insertFails releaseFails => releaseFails = false ∧
    ∀ task ∈ s.tasks[i]?, ∀ kind ∈ task.stage.response?,
      -- the request has the id of the response, and no response has it yet
      requestKey kind.key = task.key ∧ (insertFails = true ∨ s.responses.get? kind.key = none)
  | .pickResponses table ids replyLost => replyLost = false ∧
    ∀ id ∈ ids, ∀ row ∈ s.responses.get? (table, id), (row.response D.bc2wrap).isSome
  | .forwardResponse _ _ releaseFails => releaseFails = false
  | .stopWorker worker => ∀ task ∈ s.tasks, task.worker ≠ worker
  | .stopSender => s.sending = []

/-! ## Statements -/

section Statements

variable {D : ConnectorDeployment} {requests : Requests} {holders holders' : List RequestKey}

theorem held_publish {requests' : Requests} {e : GatewayEvent}
    (h : requests.Held RequestRow.underProcess holders)
    (hpublish : publish D.bc2wrap requests e = some requests') :
    requests'.Held RequestRow.underProcess holders := by
  obtain ⟨row, hrow, hinsert⟩ := Option.bind_eq_some_iff.mp hpublish
  obtain rfl := Option.some.inj hinsert
  obtain ⟨columns, bytes, -, -, rfl⟩ := row_eq_some.mp hrow
  exact h.insert rfl

theorem held_markPicked (h : requests.Held RequestRow.underProcess holders) {table : RequestTable}
    {ids : List Bytes} : (ConnectorState.markPicked requests table ids).Held
      RequestRow.underProcess (holders ++ ids.map fun id => (table, id)) := by
  apply h.take
  intro row _ hp
  obtain ⟨htable, hid⟩ := of_decide_eq_true hp
  exact List.mem_map.mpr ⟨row.key.2, hid, by rw [← htable]⟩

theorem held_markAsPending (h : requests.Held RequestRow.underProcess holders) {key : RequestKey}
    (hothers : ∀ key' ∈ holders, key' ≠ key → key' ∈ holders') :
    (markAsPending requests key).Held RequestRow.underProcess holders' :=
  h.release _ (fun _ => rfl) hothers

theorem held_deleteFromDb (h : requests.Held RequestRow.underProcess holders) {key : RequestKey}
    (hothers : ∀ key' ∈ holders, key' ≠ key → key' ∈ holders') :
    (deleteFromDb requests key).Held RequestRow.underProcess holders' :=
  h.deleteKey hothers

theorem held_markResponseAsPending {responses : Responses} {holders holders' : List ResponseKey}
    (h : responses.Held ResponseRow.underProcess holders) {key : ResponseKey}
    (hothers : ∀ key' ∈ holders, key' ≠ key → key' ∈ holders') :
    (markResponseAsPending responses key).Held ResponseRow.underProcess holders' :=
  h.release _ (fun _ => rfl) hothers

/-- The request of a task is released or deleted after an error. -/
theorem held_afterError (h : requests.Held RequestRow.underProcess holders)
    {kind : GatewayEventKind} (hothers : ∀ key' ∈ holders, key' ≠ kind.key → key' ∈ holders')
    (e : ProcessingError) :
    (ConnectorState.afterError requests kind e).Held RequestRow.underProcess holders' := by
  cases e with
  | irrecoverable => exact held_deleteFromDb h hothers
  | recoverable =>
    cases kind with
    | prssInit | keyReshareSameSet => exact held_deleteFromDb h hothers
    | publicDecryption | userDecryption | prepKeygen | keygen | crsgen =>
      exact held_markAsPending h hothers

end Statements

/-! ## Steps -/

section Steps

variable {D : ConnectorDeployment} {emitted : List GatewayEventKind} {s s' : ConnectorState}

/-- The keys of the other tasks. -/
theorem mem_keys_eraseIdx {i : ℕ} {task : EventTask} (htask : s.tasks[i]? = some task) :
    ∀ key ∈ s.tasks.map EventTask.key, key ≠ task.key →
      key ∈ (s.tasks.eraseIdx i).map EventTask.key :=
  fun _ hkey hne => mem_map_eraseIdx htask hkey hne

/-- A task that goes on keeps its key. -/
theorem keys_set {i : ℕ} {task : EventTask} (htask : s.tasks[i]? = some task) (stage : Stage) :
    (s.tasks.set i { task with stage := stage }).map EventTask.key =
      s.tasks.map EventTask.key := by
  obtain ⟨hi, rfl⟩ := List.getElem?_eq_some_iff.mp htask
  have hlt : i < (s.tasks.map EventTask.key).length := by simpa using hi
  have hkey : EventTask.key { s.tasks[i] with stage := stage } =
      (s.tasks.map EventTask.key)[i] := by
    rw [List.getElem_map]
    rfl
  rw [List.map_set, hkey, List.set_getElem_self]

/-- A task that ends leaves no mark behind if its last statement does not. -/
theorem owned_endTask (hs : Owned s) {i : ℕ} {requests : Requests}
    (hrequests : requests.Held RequestRow.underProcess
      ((s.tasks.eraseIdx i).map EventTask.key)) :
    Owned (s.endTask i requests false) :=
  ⟨hrequests, hs.responses⟩

theorem owned_receive (hs : Owned s) {emission : ℕ} {context : PropagationContext}
    {insertFails : Bool} (h : s.receive D emitted emission context insertFails = some s') :
    Owned s' := by
  obtain ⟨kind, -, ⟨rfl, -⟩ | ⟨requests, hpublish, ⟨row, -, rfl⟩ | ⟨-, rfl⟩⟩⟩ :=
    ConnectorState.receive_cases h
  · exact hs
  · exact ⟨hs.requests, hs.responses⟩
  · exact ⟨held_publish hs.requests hpublish, hs.responses⟩

/-- The tasks of a pick have the keys of its rows. -/
theorem keys_of_pickedTask {worker : ℕ} {rows : List RequestRow} {tasks : List EventTask}
    (h : rows.mapM (s.pickedTask D worker) = some tasks) :
    tasks.map EventTask.key = rows.map RequestRow.key := by
  apply map_of_mapM _ h
  intro row task htask
  simp only [ConnectorState.pickedTask, RequestRow.event, Option.bind_eq_bind,
    Option.bind_eq_some_iff, Option.pure_def, Option.some.injEq] at htask
  obtain ⟨_, ⟨kind, hkind, context, -, rfl⟩, rfl⟩ := htask
  exact key_of_kind hkind

/-- The rows of a pick have the keys that were asked for. -/
theorem keys_of_get? {α κ ι : Type*} [DecidableEq κ] {key : α → κ} {t : Table key} {f : ι → κ}
    {ids : List ι} {rows : List α} (h : ids.mapM (fun id => t.get? (f id)) = some rows) :
    rows.map key = ids.map f :=
  map_of_mapM (fun _ _ hrow => (Table.get?_eq_some.mp hrow).2) h

theorem owned_pickEvents (hs : Owned s) {worker : ℕ} {table : RequestTable} {ids : List Bytes}
    (h : s.pickEvents D worker table ids false = some s')
    (hread : ∀ id ∈ ids, ∀ row ∈ s.requests.get? (table, id), (row.event D.bc2wrap).isSome) :
    Owned s' := by
  obtain ⟨rows, hrows, rfl⟩ := ConnectorState.pickEvents_cases h
  have hall : ∀ row ∈ rows, (s.pickedTask D worker row).isSome := by
    intro row hrow
    obtain ⟨id, hid, hget⟩ := exists_of_mem_mapM_some hrows hrow
    obtain ⟨event, hevent⟩ := Option.isSome_iff_exists.mp (hread id hid row hget)
    simp [ConnectorState.pickedTask, hevent]
  obtain ⟨tasks, htasks⟩ := exists_mapM hall
  refine ⟨?_, hs.responses⟩
  have hkeys : tasks.map EventTask.key = ids.map fun id => (table, id) :=
    (keys_of_pickedTask htasks).trans (keys_of_get? hrows)
  rw [htasks]
  simp only [Bool.false_eq_true, if_false, Option.getD_some, List.map_append, hkeys]
  exact held_markPicked hs.requests

theorem owned_send (hs : Owned s) {i : ℕ} {s3 : S3Answers} (h : s.send D i s3 false = some s') :
    Owned s' := by
  obtain ⟨task, htask, rfl | ⟨request, -, rfl⟩⟩ := ConnectorState.send_cases h
  · exact owned_endTask hs (held_afterError hs.requests (mem_keys_eraseIdx htask) _)
  · exact ⟨(keys_set htask _).symm ▸ hs.requests, hs.responses⟩

theorem owned_answer (hs : Owned s) {i : ℕ} {answer : Except ProcessingError KmsGrpcResponse}
    (h : s.answer D i answer false = some s') : Owned s' := by
  obtain ⟨task, htask, ⟨e, rfl⟩ | ⟨kind, rfl⟩⟩ := ConnectorState.answer_cases h
  · exact owned_endTask hs (held_afterError hs.requests (mem_keys_eraseIdx htask) _)
  · exact ⟨(keys_set htask _).symm ▸ hs.requests, hs.responses⟩

theorem owned_publishResponse (hs : Owned s) {i : ℕ} {insertFails : Bool}
    (h : s.publishResponse D i insertFails false = some s')
    (hanswer : ∀ task ∈ s.tasks[i]?, ∀ kind ∈ task.stage.response?,
      requestKey kind.key = task.key ∧ (insertFails = true ∨ s.responses.get? kind.key = none)) :
    Owned s' := by
  obtain ⟨task, kind, htask, hstage, hcases⟩ := ConnectorState.publishResponse_cases h
  obtain ⟨hkey, hnew⟩ := hanswer task htask kind (hstage ▸ rfl)
  have hothers := mem_keys_eraseIdx htask
  rw [← hkey] at hothers
  obtain rfl | ⟨requests, responses, hfails, hpublished, rfl⟩ := hcases
  · exact owned_endTask hs (held_markAsPending hs.requests hothers)
  · obtain ⟨row, -, hrow, ⟨stored, hstored, -, -⟩ | ⟨-, rfl, rfl⟩⟩ := publishResponse_eq hpublished
    · simp [hfails, hstored] at hnew
    · exact ⟨held_deleteFromDb hs.requests hothers, hs.responses.insert hrow⟩

theorem owned_pickResponses (hs : Owned s) {table : ResponseTable} {ids : List Bytes}
    (h : s.pickResponses D table ids false = some s')
    (hread : ∀ id ∈ ids, ∀ row ∈ s.responses.get? (table, id), (row.response D.bc2wrap).isSome) :
    Owned s' := by
  obtain ⟨rows, hrows, rfl⟩ := ConnectorState.pickResponses_cases h
  have hall : ∀ row ∈ rows, (row.response D.bc2wrap).isSome := by
    intro row hrow
    obtain ⟨id, hid, hget⟩ := exists_of_mem_mapM_some hrows hrow
    exact hread id hid row hget
  obtain ⟨picked, hpicked⟩ := exists_mapM hall
  refine ⟨hs.requests, ?_⟩
  have hkeys : (picked.map fun response => response.kind.key) = ids.map fun id => (table, id) :=
    (map_of_mapM (fun _ _ => key_of_response) hpicked).trans (keys_of_get? hrows)
  rw [hpicked]
  simp only [Bool.false_eq_true, if_false, Option.getD_some, List.map_append, hkeys]
  apply hs.responses.take
  intro row _ hp
  obtain ⟨htable, hid⟩ := of_decide_eq_true hp
  exact List.mem_map.mpr ⟨row.key.2, hid, by rw [← htable]⟩

theorem owned_forwardResponse (hs : Owned s) {i : ℕ} {outcome : SendOutcome}
    (h : s.forwardResponse i outcome false = some s') : Owned s' := by
  obtain ⟨response, responses, hresponse, hcases, rfl⟩ := ConnectorState.forwardResponse_cases h
  have hothers : ∀ key ∈ s.sending.map (fun response => response.kind.key),
      key ≠ response.kind.key →
        key ∈ (s.sending.eraseIdx i).map fun response => response.kind.key :=
    fun _ hkey hne => mem_map_eraseIdx hresponse hkey hne
  refine ⟨hs.requests, ?_⟩
  obtain rfl | rfl := hcases
  · exact held_markResponseAsPending hs.responses hothers
  · exact hs.responses.deleteKey hothers

theorem owned_step (hs : Owned s) {input : ConnectorInput} (hinput : Released D s input)
    (h : s.step D emitted input = some s') : Owned s' := by
  cases input with
  | receive emission context insertFails => exact owned_receive hs h
  | pickEvents worker table ids replyLost =>
    obtain ⟨rfl, hread⟩ := hinput
    exact owned_pickEvents hs h hread
  | send i s3 releaseFails =>
    obtain rfl : releaseFails = false := hinput
    exact owned_send hs h
  | answer i answer releaseFails =>
    obtain rfl : releaseFails = false := hinput
    exact owned_answer hs h
  | publishResponse i insertFails releaseFails =>
    obtain ⟨rfl, hanswer⟩ := hinput
    exact owned_publishResponse hs h hanswer
  | pickResponses table ids replyLost =>
    obtain ⟨rfl, hread⟩ := hinput
    exact owned_pickResponses hs h hread
  | forwardResponse i outcome releaseFails =>
    obtain rfl : releaseFails = false := hinput
    exact owned_forwardResponse hs h
  | stopWorker worker =>
    obtain rfl := Option.some.inj h
    have htasks : (s.tasks.filter fun task => task.worker ≠ worker) = s.tasks :=
      List.filter_eq_self.mpr fun task htask => by simpa using hinput task htask
    exact ⟨by simpa only [htasks] using hs.requests, hs.responses⟩
  | stopSender =>
    obtain rfl := Option.some.inj h
    have hsending : s.sending = [] := hinput
    exact ⟨hs.requests, hsending ▸ hs.responses⟩

end Steps

/-- In a run that leaves no mark behind, every row is pending or a task works on it. -/
theorem owned_of_released {D : ConnectorDeployment} {emitted : List GatewayEventKind}
    {past : List ConnectorInput} {s : ConnectorState}
    (hrun : (connector D emitted).Run (Released D) past s) : Owned s := by
  refine hrun.invariant (P := fun _ s => Owned s) ?_ ?_
  · exact ⟨fun row hrow => absurd hrow (by simp [connector, ConnectorState.init]),
      fun row hrow => absurd hrow (by simp [connector, ConnectorState.init])⟩
  · intro _ _ _ _ _ hs hinput hstep
    exact owned_step hs hinput hstep

instance (D : ConnectorDeployment) : DecidableRel (Released D)
  | _, .receive _ _ _ => inferInstanceAs (Decidable True)
  | s, .pickEvents _ table ids replyLost => inferInstanceAs (Decidable (replyLost = false ∧
      ∀ id ∈ ids, ∀ row ∈ s.requests.get? (table, id), (row.event D.bc2wrap).isSome))
  | _, .send _ _ releaseFails => inferInstanceAs (Decidable (releaseFails = false))
  | _, .answer _ _ releaseFails => inferInstanceAs (Decidable (releaseFails = false))
  | s, .publishResponse i insertFails releaseFails => inferInstanceAs (Decidable
      (releaseFails = false ∧ ∀ task ∈ s.tasks[i]?, ∀ kind ∈ task.stage.response?,
        requestKey kind.key = task.key ∧ (insertFails = true ∨ s.responses.get? kind.key = none)))
  | s, .pickResponses table ids replyLost => inferInstanceAs (Decidable (replyLost = false ∧
      ∀ id ∈ ids, ∀ row ∈ s.responses.get? (table, id), (row.response D.bc2wrap).isSome))
  | _, .forwardResponse _ _ releaseFails => inferInstanceAs (Decidable (releaseFails = false))
  | s, .stopWorker worker => inferInstanceAs (Decidable (∀ task ∈ s.tasks, task.worker ≠ worker))
  | s, .stopSender => inferInstanceAs (Decidable (s.sending = []))

/-! ## Samples -/

/-- The initialization of a PRSS is received and sent to the KMS core. -/
def sentPrss : List ConnectorInput :=
  [.send 0 noS3 false, .pickEvents 0 .prssInit [asLeSlice PRSS_INIT_ID] false,
    .receive 0 [] false]

theorem sentPrss_owned : ∃ s, (connector sampleConnector [.prssInit PRSS_INIT_ID]).Run
    (Released sampleConnector) sentPrss s ∧
      s.requests.rows.map RequestRow.underProcess = [true] ∧ Owned s := by
  have hreplay : ((connector sampleConnector [.prssInit PRSS_INIT_ID]).replay
      (Released sampleConnector) sentPrss).map
        (fun s => s.requests.rows.map RequestRow.underProcess) = some [true] := by
    decide +kernel
  obtain ⟨s, hs, hmarked⟩ := Option.map_eq_some_iff.mp hreplay
  have hrun := System.run_of_replay hs
  exact ⟨s, hrun, hmarked, owned_of_released hrun⟩

/-- The worker stops while the KMS core works on the request. -/
def lostPrss : List ConnectorInput := .stopWorker 0 :: sentPrss

theorem lostPrss_marked : ¬ ∀ D emitted past s,
    (connector D emitted).Run (fun _ _ => True) past s → Owned s := by
  intro h
  have hreplay : ((connector sampleConnector [.prssInit PRSS_INIT_ID]).replay
      (fun _ _ => True) lostPrss).map
        (fun s => (s.requests.rows.map fun row => (row.key, row.underProcess), s.tasks)) =
          some ([((.prssInit, asLeSlice PRSS_INIT_ID), true)], []) := by
    decide +kernel
  obtain ⟨s, hs, hlost⟩ := Option.map_eq_some_iff.mp hreplay
  obtain ⟨hrows, htasks⟩ := Prod.mk.inj hlost
  obtain ⟨row, hrow, hmark⟩ : ∃ row ∈ s.requests.rows,
      (row.key, row.underProcess) = ((.prssInit, asLeSlice PRSS_INIT_ID), true) :=
    List.mem_map.mp (hrows ▸ List.mem_singleton_self _)
  have hheld := (h _ _ _ _ (System.run_of_replay hs)).requests row hrow (Prod.mk.inj hmark).2
  rw [htasks] at hheld
  cases hheld

end Fhevm.KmsConnector
