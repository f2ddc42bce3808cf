import Fhevm.Foundation.Lease
import Fhevm.Gateway.Backed
import Fhevm.KmsConnector.Connector
import Fhevm.KmsConnector.EmittedRequests

/-!
# A row for every request

A request is dropped only if it is stored already, as long as no two reshares of one key and no two
initializations of a PRSS meet in the database. These have rows under the same key.

## Main definitions

* `OwnRows` — only redeliveries are dropped, and requests are sent under their ids.
* `Apart` — what is needed of the next input.
* `ownRows_of_apart` — then only redeliveries are dropped.
-/

namespace Fhevm.KmsConnector

open Foundation Contract Gateway Host Sdk

/-! ## Ids -/

/-- The id of a request. -/
def GatewayEventKind.id : GatewayEventKind → U256
  | publicDecryption decryptionId _ _ | userDecryption decryptionId _ _ _ _ => decryptionId
  | prepKeygen prepKeygenId _ _ => prepKeygenId
  | keygen _ keyId => keyId
  | crsgen crsId _ _ => crsId
  | prssInit id => id
  | keyReshareSameSet _ _ keyReshareId _ => keyReshareId

def KmsGrpcRequest.requestId : KmsGrpcRequest → Option RequestId
  | publicDecryption request => request.requestId
  | userDecryption request => request.requestId
  | prepKeygen request => request.requestId
  | keygen request => request.requestId
  | crsgen request => request.requestId
  | prssInit request => request.requestId
  | keyReshareSameSet request => request.requestId

/-- A request is prepared under its id. -/
theorem requestId_of_prepareRequest {L : KmsLibrary} {config : Config} {s3 : S3Answers}
    {kind : GatewayEventKind} {request : KmsGrpcRequest}
    (h : prepareRequest L config s3 kind = some request) :
    request.requestId = some (requestIdOf kind.id) := by
  cases kind with
  | publicDecryption decryptionId materials extraData =>
    simp only [prepareRequest, prepareDecryptionRequest, Option.bind_eq_bind,
      Option.bind_eq_some_iff, Option.pure_def, Option.some.injEq] at h
    obtain ⟨_, -, _, -, _, -, rfl⟩ := h
    rfl
  | userDecryption decryptionId materials userAddress publicKey extraData =>
    simp only [prepareRequest, prepareDecryptionRequest, Option.bind_eq_bind,
      Option.bind_eq_some_iff, Option.pure_def, Option.some.injEq] at h
    obtain ⟨_, -, _, -, _, -, -, -, rfl⟩ := h
    rfl
  | prepKeygen | keygen | crsgen | prssInit | keyReshareSameSet =>
    obtain rfl := Option.some.inj h
    rfl

/-! ## The invariant -/

/-- Each row, task and sent request is that of an emission, and what was dropped had its own row. -/
structure OwnRows (emitted : List GatewayEventKind) (s : ConnectorState) : Prop where
  rows : ∀ row ∈ s.requests.rows, s.emissionOf row.key ∈ s.inserted ∧
    ∃ kind, emitted[s.emissionOf row.key]? = some kind ∧ kind.columns = some row.columns
  tasks : ∀ task ∈ s.tasks, emitted[task.emission]? = some task.event.kind
  dropped : ∀ d ∈ s.dropped, d.1 = d.2 ∧ d.1 ∈ s.inserted
  sent : ∀ r ∈ s.sent, ∃ kind, emitted[r.1]? = some kind ∧
    r.2.requestId.bind decodeRequestId = some kind.id

/-- The row that a request meets under its key is its own, for the kinds whose keys are shared. -/
def meetsOwnRow (emission storedFor : ℕ) : GatewayEventKind → RequestColumns → Bool
  | .keyReshareSameSet _ _ keyReshareId _, .keyReshareSameSet _ _ storedId _ =>
    decide (storedId = asLeSlice keyReshareId)
  | .prssInit _, _ => decide (storedFor = emission)
  -- the key of preprocessings that nobody requested
  | .keygen prepKeygenId keyId, .keygenRequests storedId _ =>
    decide (keyId = 0 → storedId = asLeSlice prepKeygenId)
  | _, _ => true

/-- No two requests meet that have rows under the same key. -/
def Apart (emitted : List GatewayEventKind) (s : ConnectorState) : ConnectorInput → Prop
  | .receive emission _ _ => ∀ kind ∈ emitted[emission]?, ∀ row ∈ s.requests.get? kind.key,
    meetsOwnRow emission (s.emissionOf kind.key) kind row.columns = true
  | _ => True

instance (emitted : List GatewayEventKind) : DecidableRel (Apart emitted)
  | s, .receive emission _ _ => inferInstanceAs (Decidable (∀ kind ∈ emitted[emission]?,
      ∀ row ∈ s.requests.get? kind.key,
        meetsOwnRow emission (s.emissionOf kind.key) kind row.columns = true))
  | _, .pickEvents _ _ _ _ | _, .send _ _ _ | _, .answer _ _ _ | _, .publishResponse _ _ _
  | _, .pickResponses _ _ _ | _, .forwardResponse _ _ _ | _, .stopWorker _ | _, .stopSender =>
    inferInstanceAs (Decidable True)

section Steps

variable {D : ConnectorDeployment} {emitted : List GatewayEventKind} {s s' : ConnectorState}

theorem columns_keyReshareSameSet {prepKeygenId keyId keyReshareId : U256} {paramsType : UInt8}
    {columns : RequestColumns}
    (h : GatewayEventKind.columns (.keyReshareSameSet prepKeygenId keyId keyReshareId paramsType) =
      some columns) : ∃ params, columns = .keyReshareSameSet (asLeSlice prepKeygenId)
        (asLeSlice keyId) (asLeSlice keyReshareId) params := by
  obtain ⟨params, -, h⟩ := Option.bind_eq_some_iff.mp h
  exact ⟨params, (Option.some.inj h).symm⟩

/-- Requests under the same key have the same number, if the row that is met is the own one. -/
theorem serial_of_key {g : GatewayState} (hemitted : Emissions emitted g) {m n : ℕ}
    {kind kind' : GatewayEventKind} {columns : RequestColumns} (hm : kind' ∈ emitted)
    (hn : kind ∈ emitted) (hcolumns : kind'.columns = some columns) (hkey : kind'.key = kind.key)
    (hown : meetsOwnRow n m kind columns = true) : kind'.serial? = kind.serial? := by
  cases kind <;> cases kind' <;>
    simp only [GatewayEventKind.key, Prod.mk.injEq, reduceCtorEq, false_and, true_and] at hkey <;>
    have hid := asLeSlice_injective hkey <;> subst hid
  case keygen.keygen prepKeygenId prepKeygenId' keyId =>
    obtain rfl := Option.some.inj hcolumns
    simp only [meetsOwnRow, decide_eq_true_eq] at hown
    have hprep : prepKeygenId' = prepKeygenId := by
      by_cases hzero : keyId = 0
      · exact asLeSlice_injective (hown hzero)
      · exact hemitted.prepKeygenId_eq hm hn hzero
    rw [hprep]
  case keyReshareSameSet.keyReshareSameSet =>
    obtain ⟨params, rfl⟩ := columns_keyReshareSameSet hcolumns
    simp only [meetsOwnRow, decide_eq_true_eq] at hown
    have hid := asLeSlice_injective hown
    subst hid
    rfl
  all_goals rfl

/-- The row that a request meets is that of the same emission. -/
theorem emission_eq {g : GatewayState} (hemitted : Emissions emitted g) {m n : ℕ}
    {kind kind' : GatewayEventKind} {columns : RequestColumns} (hm : emitted[m]? = some kind')
    (hn : emitted[n]? = some kind) (hcolumns : kind'.columns = some columns)
    (hkey : columns.key = kind.key) (hown : meetsOwnRow n m kind columns = true) : m = n := by
  rw [key_of_columns hcolumns] at hkey
  have hserial := serial_of_key hemitted (List.mem_of_getElem? hm) (List.mem_of_getElem? hn)
    hcolumns hkey hown
  cases kind with
  | prssInit id => exact of_decide_eq_true hown
  | publicDecryption | userDecryption | prepKeygen | keygen | crsgen | keyReshareSameSet =>
    exact hemitted.eq_of_serial hm hn hserial (hserial ▸ Option.some_ne_none _)

/-- All rows are there with their columns before. -/
def RowsFrom (requests requests' : Requests) : Prop :=
  ∀ row' ∈ requests'.rows, ∃ row ∈ requests.rows, row.columns = row'.columns

theorem rowsFrom_refl (requests : Requests) : RowsFrom requests requests :=
  fun row hrow => ⟨row, hrow, rfl⟩

theorem rowsFrom_update {requests : Requests} {p : RequestRow → Bool}
    {f : RequestRow → RequestRow} (hf : ∀ row, (f row).key = row.key)
    (hcolumns : ∀ row, (f row).columns = row.columns) :
    RowsFrom requests (requests.update p f hf) := by
  intro row' hrow'
  obtain ⟨row, hrow, rfl⟩ := List.mem_map.mp hrow'
  refine ⟨row, hrow, ?_⟩
  split_ifs
  · rw [hcolumns]
  · rfl

theorem rowsFrom_markPicked (requests : Requests) (table : RequestTable) (ids : List Bytes) :
    RowsFrom requests (ConnectorState.markPicked requests table ids) := by
  apply rowsFrom_update
  intro row
  rfl

theorem rowsFrom_markAsPending (requests : Requests) (key : RequestKey) :
    RowsFrom requests (markAsPending requests key) := by
  apply rowsFrom_update
  intro row
  rfl

theorem rowsFrom_delete {requests : Requests} {p : RequestRow → Bool} :
    RowsFrom requests (requests.delete p) :=
  fun row hrow => ⟨row, (Table.mem_delete.mp hrow).1, rfl⟩

theorem rowsFrom_afterError (requests : Requests) (kind : GatewayEventKind) (e : ProcessingError) :
    RowsFrom requests (ConnectorState.afterError requests kind e) := by
  cases e with
  | irrecoverable => exact rowsFrom_delete
  | recoverable =>
    cases kind with
    | prssInit | keyReshareSameSet => exact rowsFrom_delete
    | publicDecryption | userDecryption | prepKeygen | keygen | crsgen =>
      exact rowsFrom_markAsPending _ _

/-- A step that inserts no request and sends none. -/
theorem OwnRows.frame (hs : OwnRows emitted s) {requests : Requests} {responses : Responses}
    {tasks : List EventTask} {sending : List KmsResponse} (hrows : RowsFrom s.requests requests)
    (htasks : ∀ task ∈ tasks, emitted[task.emission]? = some task.event.kind) :
    OwnRows emitted { s with requests, responses, tasks, sending } := by
  refine ⟨?_, htasks, hs.dropped, hs.sent⟩
  intro row' hrow'
  obtain ⟨row, hrow, hcolumns⟩ := hrows row' hrow'
  have hkey : row'.key = row.key := congrArg RequestColumns.key hcolumns.symm
  rw [hkey, ← hcolumns]
  exact hs.rows row hrow

theorem OwnRows.endTask (hs : OwnRows emitted s) {i : ℕ} {requests : Requests} {fails : Bool}
    (hrows : RowsFrom s.requests requests) : OwnRows emitted (s.endTask i requests fails) := by
  apply hs.frame
  · split_ifs
    · exact rowsFrom_refl _
    · exact hrows
  · exact fun task htask => hs.tasks task (List.mem_of_mem_eraseIdx htask)

/-- A task that goes on keeps its event. -/
theorem OwnRows.setTask (hs : OwnRows emitted s) {i : ℕ} {task : EventTask}
    (htask : s.tasks[i]? = some task) (stage : Stage) :
    ∀ task' ∈ s.tasks.set i { task with stage := stage },
      emitted[task'.emission]? = some task'.event.kind := by
  intro task' htask'
  obtain hmem | rfl := List.mem_or_eq_of_mem_set htask'
  · exact hs.tasks task' hmem
  · exact hs.tasks task (List.mem_of_getElem? htask)

/-- A row that is read is the event of its emission. -/
theorem OwnRows.of_pickedTask (hs : OwnRows emitted s) {worker : ℕ} {row : RequestRow}
    {task : EventTask} (hrow : row ∈ s.requests.rows)
    (htask : s.pickedTask D worker row = some task) :
    emitted[task.emission]? = some task.event.kind := by
  simp only [ConnectorState.pickedTask, RequestRow.event, Option.bind_eq_bind,
    Option.bind_eq_some_iff, Option.pure_def, Option.some.injEq] at htask
  obtain ⟨_, ⟨kind, hkind, context, -, rfl⟩, rfl⟩ := htask
  obtain ⟨-, kind', hemitted, hcolumns⟩ := hs.rows row hrow
  rw [kind_of_columns hcolumns, Option.some.injEq] at hkind
  exact hkind ▸ hemitted

theorem ownRows_receive {g : GatewayState} (hemitted : Emissions emitted g)
    (hs : OwnRows emitted s) {emission : ℕ} {context : PropagationContext} {insertFails : Bool}
    (hapart : Apart emitted s (.receive emission context insertFails))
    (h : s.receive D emitted emission context insertFails = some s') : OwnRows emitted s' := by
  obtain ⟨kind, hkind, ⟨rfl, -⟩ | ⟨requests, hpublish, ⟨row, hrow, rfl⟩ | ⟨hnone, rfl⟩⟩⟩ :=
    ConnectorState.receive_cases h
  · exact hs
  · obtain ⟨hmem, hkey⟩ := Table.get?_eq_some.mp hrow
    obtain ⟨hinserted, kind', hkind', hcolumns⟩ := hs.rows row hmem
    rw [hkey] at hinserted hkind'
    have hsame := emission_eq hemitted hkind' hkind hcolumns hkey (hapart kind hkind row hrow)
    refine ⟨hs.rows, hs.tasks, ?_, hs.sent⟩
    intro d hd
    obtain hd | hd := List.mem_append.mp hd
    · exact hs.dropped d hd
    · obtain rfl := List.mem_singleton.mp hd
      exact ⟨hsame.symm, hsame ▸ hinserted⟩
  · obtain ⟨row, hrow, hinsert⟩ := Option.bind_eq_some_iff.mp hpublish
    obtain rfl := Option.some.inj hinsert
    obtain ⟨columns, bytes, hcolumns, -, rfl⟩ := row_eq_some.mp hrow
    have hkey : columns.key = kind.key := key_of_columns hcolumns
    refine ⟨?_, hs.tasks, ?_, hs.sent⟩
    · intro row' hrow'
      obtain hold | ⟨-, rfl⟩ := Table.mem_insert.mp hrow'
      · have hne : row'.key ≠ kind.key := by
          intro heq
          exact Table.get?_eq_none.mp hnone (heq ▸ List.mem_map_of_mem hold)
        simp only [Function.update_of_ne hne]
        exact ⟨List.mem_append_left _ (hs.rows row' hold).1, (hs.rows row' hold).2⟩
      · simp only [RequestRow.key, hkey, Function.update_self]
        exact ⟨List.mem_append_right _ (List.mem_singleton_self _), kind, hkind, hcolumns⟩
    · intro d hd
      obtain ⟨hsame, hinserted⟩ := hs.dropped d hd
      exact ⟨hsame, List.mem_append_left _ hinserted⟩

theorem ownRows_step {g : GatewayState} (hemitted : Emissions emitted g) (hs : OwnRows emitted s)
    {input : ConnectorInput} (hapart : Apart emitted s input)
    (h : s.step D emitted input = some s') : OwnRows emitted s' := by
  cases input with
  | receive emission context insertFails => exact ownRows_receive hemitted hs hapart h
  | pickEvents worker table ids replyLost =>
    obtain ⟨rows, hrows, rfl⟩ := ConnectorState.pickEvents_cases h
    apply hs.frame (rowsFrom_markPicked _ _ _)
    intro task htask
    obtain htask | htask := List.mem_append.mp htask
    · exact hs.tasks task htask
    · obtain ⟨picked, hpicked, htask⟩ : ∃ picked, rows.mapM (s.pickedTask D worker) = some picked ∧
          task ∈ picked := by
        split_ifs at htask
        · cases htask
        · cases hpicked : rows.mapM (s.pickedTask D worker) with
          | none => simp [hpicked] at htask
          | some picked => exact ⟨picked, rfl, by simpa [hpicked] using htask⟩
      obtain ⟨row, hrow, hread⟩ := exists_of_mem_mapM_some hpicked htask
      obtain ⟨id, -, hget⟩ := exists_of_mem_mapM_some hrows hrow
      exact hs.of_pickedTask (Table.get?_eq_some.mp hget).1 hread
  | send i s3 releaseFails =>
    obtain ⟨task, htask, rfl | ⟨request, hrequest, rfl⟩⟩ := ConnectorState.send_cases h
    · exact hs.endTask (rowsFrom_afterError _ _ _)
    · refine ⟨hs.rows, hs.setTask htask _, hs.dropped, ?_⟩
      intro r hr
      obtain hr | hr := List.mem_append.mp hr
      · exact hs.sent r hr
      · obtain rfl := List.mem_singleton.mp hr
        refine ⟨_, hs.tasks task (List.mem_of_getElem? htask), ?_⟩
        simp [requestId_of_prepareRequest hrequest]
  | answer i answer releaseFails =>
    obtain ⟨task, htask, ⟨e, rfl⟩ | ⟨kind, rfl⟩⟩ := ConnectorState.answer_cases h
    · exact hs.endTask (rowsFrom_afterError _ _ _)
    · exact hs.frame (rowsFrom_refl _) (hs.setTask htask _)
  | publishResponse i insertFails releaseFails =>
    obtain ⟨task, kind, htask, -, rfl | ⟨requests, responses, -, hpublished, rfl⟩⟩ :=
      ConnectorState.publishResponse_cases h
    · exact hs.endTask (rowsFrom_markAsPending _ _)
    · have htasks : ∀ task' ∈ s.tasks.eraseIdx i, emitted[task'.emission]? = some task'.event.kind :=
        fun task' htask' => hs.tasks task' (List.mem_of_mem_eraseIdx htask')
      obtain ⟨row, -, -, ⟨_, -, rfl, rfl⟩ | ⟨-, rfl, rfl⟩⟩ := publishResponse_eq hpublished
      · exact hs.frame (rowsFrom_refl _) htasks
      · exact hs.frame rowsFrom_delete htasks
  | pickResponses table ids replyLost =>
    obtain ⟨rows, hrows, rfl⟩ := ConnectorState.pickResponses_cases h
    exact hs.frame (rowsFrom_refl _) hs.tasks
  | forwardResponse i outcome releaseFails =>
    obtain ⟨response, responses, -, -, rfl⟩ := ConnectorState.forwardResponse_cases h
    exact hs.frame (rowsFrom_refl _) hs.tasks
  | stopWorker worker =>
    obtain rfl := Option.some.inj h
    exact hs.frame (rowsFrom_refl _) fun task htask => hs.tasks task (List.mem_of_mem_filter htask)
  | stopSender =>
    obtain rfl := Option.some.inj h
    exact hs.frame (rowsFrom_refl _) hs.tasks

end Steps

/-! ## Whole runs -/

/-- A row that is pending can be picked, unless no row is ever picked of its table, and is sent to
the KMS core under the id of its emission. -/
def LeadToOwnIds (D : ConnectorDeployment) (emitted : List GatewayEventKind) (s : ConnectorState) :
    Prop :=
  ∀ row ∈ s.requests.rows, row.underProcess = false → (row.event D.bc2wrap).isSome →
    1 ≤ ConnectorState.eventsLimit D row.key.1 →
    ∃ kind, emitted[s.emissionOf row.key]? = some kind ∧ ∀ worker s3 request,
      prepareRequest D.library D.config s3 kind = some request →
        ∃ t u, s.step D emitted (.pickEvents worker row.key.1 [row.key.2] false) = some t ∧
          t.step D emitted (.send s.tasks.length s3 false) = some u ∧
            u.sent = s.sent ++ [(s.emissionOf row.key, request)] ∧
              request.requestId.bind decodeRequestId = some kind.id

section Runs

variable {D : ConnectorDeployment} {emitted : List GatewayEventKind} {s s' : ConnectorState}

theorem leadToOwnIds (hs : OwnRows emitted s) : LeadToOwnIds D emitted s := by
  intro row hrow hpending hread hlimit
  obtain ⟨-, kind, hkind, hcolumns⟩ := hs.rows row hrow
  refine ⟨kind, hkind, fun worker s3 request hrequest => ?_⟩
  obtain ⟨event, hevent⟩ := Option.isSome_iff_exists.mp hread
  have hget : s.requests.get? (row.key.1, row.key.2) = some row :=
    Table.get?_eq_some.mpr ⟨hrow, rfl⟩
  have htask : s.pickedTask D worker row =
      some { worker, event, emission := s.emissionOf row.key, stage := .picked } := by
    simp [ConnectorState.pickedTask, hevent]
  have hsame : event.kind = kind := by
    have := hs.of_pickedTask hrow htask
    rw [hkind, Option.some.injEq] at this
    exact this.symm
  let task : EventTask := { worker, event, emission := s.emissionOf row.key, stage := .picked }
  let t : ConnectorState := { s with
    requests := ConnectorState.markPicked s.requests row.key.1 [row.key.2]
    tasks := s.tasks ++ [task] }
  have hpick : s.step D emitted (.pickEvents worker row.key.1 [row.key.2] false) = some t := by
    simp [ConnectorState.step, ConnectorState.pickEvents, hget, hlimit, hpending, htask, t, task]
  let u : ConnectorState := { t with
    tasks := t.tasks.set s.tasks.length { task with stage := .asked request }
    sent := s.sent ++ [(s.emissionOf row.key, request)] }
  have hsend : t.step D emitted (.send s.tasks.length s3 false) = some u := by
    simp [ConnectorState.step, ConnectorState.send, hsame, hrequest, t, task, u]
  refine ⟨t, u, hpick, hsend, rfl, ?_⟩
  simp [requestId_of_prepareRequest hrequest]

/-- It is not forgotten that a row was inserted. -/
theorem inserted_step {input : ConnectorInput} (h : s.step D emitted input = some s') {n : ℕ}
    (hn : n ∈ s.inserted) : n ∈ s'.inserted := by
  cases input with
  | receive emission context insertFails =>
    obtain ⟨kind, -, ⟨rfl, -⟩ | ⟨requests, -, ⟨row, -, rfl⟩ | ⟨-, rfl⟩⟩⟩ :=
      ConnectorState.receive_cases h
    · exact hn
    · exact hn
    · exact List.mem_append_left _ hn
  | pickEvents worker table ids replyLost =>
    obtain ⟨rows, -, rfl⟩ := ConnectorState.pickEvents_cases h
    exact hn
  | send i s3 releaseFails =>
    obtain ⟨task, -, rfl | ⟨request, -, rfl⟩⟩ := ConnectorState.send_cases h <;> exact hn
  | answer i answer releaseFails =>
    obtain ⟨task, -, ⟨e, rfl⟩ | ⟨kind, rfl⟩⟩ := ConnectorState.answer_cases h <;> exact hn
  | publishResponse i insertFails releaseFails =>
    obtain ⟨task, kind, -, -, rfl | ⟨requests, responses, -, -, rfl⟩⟩ :=
      ConnectorState.publishResponse_cases h <;> exact hn
  | pickResponses table ids replyLost =>
    obtain ⟨rows, -, rfl⟩ := ConnectorState.pickResponses_cases h
    exact hn
  | forwardResponse i outcome releaseFails =>
    obtain ⟨response, responses, -, -, rfl⟩ := ConnectorState.forwardResponse_cases h
    exact hn
  | stopWorker worker | stopSender =>
    obtain rfl := Option.some.inj h
    exact hn

/-- A request that is received is stored, unless the insertion fails. -/
theorem inserted_receive (hemittable : ∀ e ∈ emitted, e.Emittable) (hs' : OwnRows emitted s')
    {emission : ℕ} {context : PropagationContext} (hcontext : (D.bc2wrap.serialize context).isSome)
    (h : s.receive D emitted emission context false = some s') : emission ∈ s'.inserted := by
  obtain ⟨kind, hkind, ⟨-, hfails | hnone⟩ | ⟨requests, -, ⟨row, -, rfl⟩ | ⟨-, rfl⟩⟩⟩ :=
    ConnectorState.receive_cases h
  · cases hfails
  · obtain ⟨columns, hcolumns⟩ := exists_columns (hemittable kind (List.mem_of_getElem? hkind))
    obtain ⟨bytes, hbytes⟩ := Option.isSome_iff_exists.mp hcontext
    simp [publish, GatewayEvent.row, hcolumns, hbytes] at hnone
  · exact (hs'.dropped (emission, s.emissionOf kind.key) (by simp)).2
  · simp

end Runs

/-- In a run in which no two requests with rows under the same key meet, only redeliveries are
dropped. Every request that is received is stored, unless the insertion fails, and what is stored is
sent under its id. -/
theorem ownRows_of_apart (G : GatewayChain) (owner : Address)
    (calls : List (Address × GatewayCall)) {D : ConnectorDeployment} {past : List ConnectorInput}
    {s : ConnectorState} (hrun : (connector D (emittedBy G owner calls)).Run
      (Apart (emittedBy G owner calls)) past s) :
    OwnRows (emittedBy G owner calls) s ∧
      (∀ emission context, .receive emission context false ∈ past →
        (D.bc2wrap.serialize context).isSome → emission ∈ s.inserted) ∧
      LeadToOwnIds D (emittedBy G owner calls) s := by
  have hemitted := emissions G owner calls
  suffices h : OwnRows (emittedBy G owner calls) s ∧ ∀ emission context,
      .receive emission context false ∈ past → (D.bc2wrap.serialize context).isSome →
        emission ∈ s.inserted from ⟨h.1, h.2, leadToOwnIds h.1⟩
  refine hrun.invariant (P := fun past s => OwnRows (emittedBy G owner calls) s ∧
    ∀ emission context, .receive emission context false ∈ past →
      (D.bc2wrap.serialize context).isSome → emission ∈ s.inserted) ?_ ?_
  · refine ⟨⟨?_, ?_, ?_, ?_⟩, ?_⟩ <;> simp [connector, ConnectorState.init]
  · rintro past input s s' - ⟨hs, hinserted⟩ hapart hstep
    have hs' := ownRows_step hemitted hs hapart hstep
    refine ⟨hs', fun emission context hmem hcontext => ?_⟩
    obtain rfl | hmem := List.mem_cons.mp hmem
    · exact inserted_receive hemitted.emittable hs' hcontext hstep
    · exact inserted_step hstep (hinserted emission context hmem hcontext)

/-! ## Samples -/

/-- A key is generated and reshared twice. -/
def resharedTwice : List (Address × GatewayCall) :=
  [(1, .kms (.keyReshareSameSet (KEY_COUNTER_BASE + 1))),
    (1, .kms (.keyReshareSameSet (KEY_COUNTER_BASE + 1))),
    (21, .kms (.keygenResponse (KEY_COUNTER_BASE + 1) [] [51])),
    (20, .kms (.keygenResponse (KEY_COUNTER_BASE + 1) [] [50])),
    (21, .kms (.prepKeygenResponse (PREP_KEYGEN_COUNTER_BASE + 1) [51])),
    (20, .kms (.prepKeygenResponse (PREP_KEYGEN_COUNTER_BASE + 1) [50])),
    (1, .kms (.keygen .default))] ++ twoVotes

theorem emittedBy_resharedTwice : emittedBy sampleChain 1 resharedTwice =
    [.prepKeygen (3 <<< 248 + 1) 0 0, .keygen (3 <<< 248 + 1) (4 <<< 248 + 1),
      .keyReshareSameSet (3 <<< 248 + 1) (4 <<< 248 + 1) (6 <<< 248 + 1) 0,
      .keyReshareSameSet (3 <<< 248 + 1) (4 <<< 248 + 1) (6 <<< 248 + 2) 0] := by
  decide +kernel

/-- The second reshare is received when the KMS core has got the first. -/
def resharedApart : List ConnectorInput :=
  [.receive 3 [] false, .answer 0 (.ok .noResponseExpected) false, .send 0 noS3 false,
    .pickEvents 0 .keyReshareSameSet [asLeSlice (4 <<< 248 + 1)] false, .receive 2 [] false]

theorem resharedApart_ownRows : ∃ s, (connector sampleConnector
    (emittedBy sampleChain 1 resharedTwice)).Run (Apart (emittedBy sampleChain 1 resharedTwice))
      resharedApart s ∧ s.inserted = [2, 3] ∧ s.sent.map Prod.fst = [2] ∧
        OwnRows (emittedBy sampleChain 1 resharedTwice) s := by
  have hreplay : ((connector sampleConnector (emittedBy sampleChain 1 resharedTwice)).replay
      (Apart (emittedBy sampleChain 1 resharedTwice)) resharedApart).map
        (fun s => (s.inserted, s.sent.map Prod.fst)) = some ([2, 3], [2]) := by
    rw [emittedBy_resharedTwice]
    decide +kernel
  obtain ⟨s, hs, hstate⟩ := Option.map_eq_some_iff.mp hreplay
  obtain ⟨hinserted, hsent⟩ := Prod.mk.inj hstate
  have hrun := System.run_of_replay hs
  exact ⟨s, hrun, hinserted, hsent, (ownRows_of_apart sampleChain 1 resharedTwice hrun).1⟩

/-- The second reshare is received while the first is stored. -/
def resharedTogether : List ConnectorInput := [.receive 3 [] false, .receive 2 [] false]

/-- It is dropped. -/
theorem resharedTogether_dropped : ¬ ∀ G owner calls D past s,
    (connector D (emittedBy G owner calls)).Run (fun _ _ => True) past s →
      OwnRows (emittedBy G owner calls) s := by
  intro h
  have hreplay : ((connector sampleConnector (emittedBy sampleChain 1 resharedTwice)).replay
      (fun _ _ => True) resharedTogether).map ConnectorState.dropped = some [(3, 2)] := by
    rw [emittedBy_resharedTwice]
    decide +kernel
  obtain ⟨s, hs, hdropped⟩ := Option.map_eq_some_iff.mp hreplay
  have hown := h sampleChain 1 resharedTwice _ _ s (System.run_of_replay hs)
  have hsame := (hown.dropped (3, 2) (hdropped ▸ List.mem_singleton_self _)).1
  exact absurd hsame (by decide)

end Fhevm.KmsConnector
