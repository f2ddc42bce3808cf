import Fhevm.KmsConnector.GwListener

/-!
# What becomes of received events

A handler that meets an error only logs it, and the loop of its event is past the event by then. So
it depends on the insertions whether all events are stored that a listener has received. Each event
needs one, of this listener or of another, that the database does not reject and that meets no row
of another event.

## Main definitions

* `ConnectorState.Stored` — an event was inserted, or was a duplicate of itself.
* `AcceptsInsert` — what an insertion needs.
* `ListenersState.Idle` — no handler of a listener is running.
* `stored_iff_published` — which runs leave an idle listener with all its events stored.
-/

namespace Fhevm.KmsConnector

open Foundation

/-! ## Insertions -/

/-- An event was inserted, or ignored as a duplicate of a row that was inserted for it. -/
def ConnectorState.Stored (c : ConnectorState) (emission : ℕ) : Prop :=
  emission ∈ c.inserted ∨ (emission, emission) ∈ c.dropped

/-- The database takes the row of an event, and holds no row of another event under its key. -/
def AcceptsInsert (D : ConnectorDeployment) (emitted : List GatewayEventKind) (c : ConnectorState)
    (emission : ℕ) (context : PropagationContext) (insertFails : Bool) : Prop :=
  insertFails = false ∧ (D.bc2wrap.serialize context).isSome ∧
    ∀ kind ∈ emitted[emission]?, kind.columns.isSome ∧
      ((c.requests.get? kind.key).isSome → c.emissionOf kind.key = emission)

section Insertions

variable {D : ConnectorDeployment} {emitted : List GatewayEventKind} {c c' : ConnectorState}

theorem publish_eq_none {B : Bc2wrap} {requests : Requests} {e : GatewayEvent} :
    publish B requests e = none ↔ e.kind.columns = none ∨ B.serialize e.otlpContext = none := by
  cases hcolumns : e.kind.columns <;> cases hcontext : B.serialize e.otlpContext <;>
    simp [publish, GatewayEvent.row, hcolumns, hcontext]

theorem publish_eq_some {B : Bc2wrap} {requests requests' : Requests} {e : GatewayEvent}
    (h : publish B requests e = some requests') :
    e.kind.columns.isSome ∧ (B.serialize e.otlpContext).isSome := by
  obtain ⟨row, hrow, -⟩ := Option.bind_eq_some_iff.mp h
  obtain ⟨columns, bytes, hcolumns, hbytes, -⟩ := row_eq_some.mp hrow
  simp [hcolumns, hbytes]

theorem stored_receive {emission : ℕ} {context : PropagationContext} {insertFails : Bool}
    (h : c.receive D emitted emission context insertFails = some c') (m : ℕ) :
    c'.Stored m ↔
      c.Stored m ∨ (m = emission ∧ AcceptsInsert D emitted c emission context insertFails) := by
  obtain ⟨kind, hkind, hcases⟩ := ConnectorState.receive_cases h
  cases insertFails with
  | true =>
    obtain ⟨_, -, hsame⟩ := Option.bind_eq_some_iff.mp h
    obtain rfl : c = c' := Option.some.inj hsame
    simp [AcceptsInsert]
  | false =>
    obtain ⟨rfl, hfails | hnone⟩ | ⟨requests, hpublish, hcases⟩ := hcases
    · cases hfails
    · have hrejects : ¬ AcceptsInsert D emitted c' emission context false := by
        rintro ⟨-, hcontext, hkinds⟩
        have hcolumns := (hkinds kind hkind).1
        obtain hnone | hnone := publish_eq_none.mp hnone
        · simp [hnone] at hcolumns
        · simp [hnone] at hcontext
      simp [hrejects]
    · obtain ⟨hcolumns, hcontext⟩ := publish_eq_some hpublish
      obtain ⟨row, hrow, rfl⟩ | ⟨hnone, rfl⟩ := hcases
      · have haccepts : AcceptsInsert D emitted c emission context false ↔
            c.emissionOf kind.key = emission := by
          simp [AcceptsInsert, hcolumns, hcontext, hkind, hrow]
        rw [haccepts]
        simp only [ConnectorState.Stored, List.mem_append, List.mem_singleton, Prod.mk.injEq]
        grind
      · have haccepts : AcceptsInsert D emitted c emission context false := by
          simp [AcceptsInsert, hcolumns, hcontext, hkind, hnone]
        simp only [ConnectorState.Stored, List.mem_append, List.mem_singleton, haccepts, and_true]
        tauto

/-- Only the reception of an event changes which events are stored. -/
theorem stored_step {input : ConnectorInput}
    (hinput : ∀ emission context insertFails, input ≠ .receive emission context insertFails)
    (h : c.step D emitted input = some c') (m : ℕ) : c'.Stored m ↔ c.Stored m := by
  cases input with
  | receive emission context insertFails => exact absurd rfl (hinput emission context insertFails)
  | pickEvents worker table ids replyLost =>
    obtain ⟨rows, -, rfl⟩ := ConnectorState.pickEvents_cases h
    rfl
  | send i s3 releaseFails =>
    obtain ⟨task, -, rfl | ⟨request, -, rfl⟩⟩ := ConnectorState.send_cases h <;> rfl
  | answer i answer releaseFails =>
    obtain ⟨task, -, ⟨e, rfl⟩ | ⟨kind, rfl⟩⟩ := ConnectorState.answer_cases h <;> rfl
  | publishResponse i insertFails releaseFails =>
    obtain ⟨task, kind, -, -, rfl | ⟨requests, responses, -, -, rfl⟩⟩ :=
      ConnectorState.publishResponse_cases h <;> rfl
  | pickResponses table ids replyLost =>
    obtain ⟨rows, -, rfl⟩ := ConnectorState.pickResponses_cases h
    rfl
  | forwardResponse i outcome releaseFails =>
    obtain ⟨response, responses, -, -, rfl⟩ := ConnectorState.forwardResponse_cases h
    rfl
  | stopWorker worker | stopSender =>
    obtain rfl := Option.some.inj h
    rfl

end Insertions

/-! ## Handlers -/

namespace ListenersState

/-- A handler waits for its permit. -/
def Waits (s : ListenersState) (r : Reception) : Prop :=
  ∃ table, s.loop (r.listener, table) = .spawning r.emission

def Running (s : ListenersState) (r : Reception) : Prop :=
  s.Waits r ∨ r ∈ s.handlers

def Idle (s : ListenersState) (listener : ℕ) : Prop :=
  ∀ emission, ¬ s.Running ⟨listener, emission⟩

/-- The handler of a reception ends. -/
def Handles (s : ListenersState) : ListenersInput → Reception → Prop
  | .handle i _ _, r => s.handlers[i]? = some r
  | _, _ => False

/-- A handler of an event ends with an insertion that is accepted. -/
def Publishes (D : ConnectorDeployment) (emitted : List GatewayEventKind) (s : ListenersState) :
    ListenersInput → ℕ → Prop
  | .handle i context insertFails, emission =>
    (∃ listener, s.handlers[i]? = some ⟨listener, emission⟩) ∧
      AcceptsInsert D emitted s.connector emission context insertFails
  | _, _ => False

end ListenersState

/-- A listener receives an event. -/
def ListenersInput.Brings : ListenersInput → Reception → Prop
  | .next listener _ (.ok emission), r => r = ⟨listener, emission⟩
  | _, _ => False

section Steps

variable {D : ConnectorDeployment} {emitted : List GatewayEventKind} {taskLimit : ℕ → ℕ}
  {s s' : ListenersState} {input : ListenersInput}

theorem waits_setLoop {listener : ℕ} {table : RequestTable} {loop : Loop} {r : Reception} :
    (s.setLoop listener table loop).Waits r ↔
      (r.listener = listener ∧ loop = .spawning r.emission) ∨
        ∃ table', (r.listener, table') ≠ (listener, table) ∧
          s.loop (r.listener, table') = .spawning r.emission := by
  simp only [ListenersState.Waits, ListenersState.setLoop, Function.update_apply]
  constructor
  · rintro ⟨table', hloop⟩
    split_ifs at hloop with heq
    · exact .inl ⟨(Prod.mk.inj heq).1, hloop⟩
    · exact .inr ⟨table', heq, hloop⟩
  · rintro (⟨rfl, hloop⟩ | ⟨table', hne, hloop⟩)
    · exact ⟨table, by rw [if_pos rfl, hloop]⟩
    · exact ⟨table', by rw [if_neg hne, hloop]⟩

/-- The loop of one stream, and the others. -/
theorem waits_iff (s : ListenersState) (listener : ℕ) (table : RequestTable) {r : Reception} :
    s.Waits r ↔ (r.listener = listener ∧ s.loop (listener, table) = .spawning r.emission) ∨
      ∃ table', (r.listener, table') ≠ (listener, table) ∧
        s.loop (r.listener, table') = .spawning r.emission := by
  rw [← waits_setLoop]
  simp [ListenersState.setLoop]

theorem mem_eraseIdx_or {α : Type} {l : List α} {i : ℕ} {a : α} :
    a ∈ l ↔ a ∈ l.eraseIdx i ∨ l[i]? = some a := by
  rw [List.mem_eraseIdx_iff_getElem?, List.mem_iff_getElem?]
  grind

/-- What runs and what is received was running before, or came in, and is running still or ended. -/
theorem running_step (h : s.step D emitted taskLimit input = some s') (r : Reception) :
    (s'.Running r ∨ s.Handles input r ↔ s.Running r ∨ input.Brings r) ∧
      (r ∈ s'.received ↔ r ∈ s.received ∨ input.Brings r) := by
  simp only [ListenersState.Running]
  cases input with
  | subscribe listener table position =>
    obtain ⟨hloop, rfl⟩ := ListenersState.subscribe_cases h
    have hnew : position.elim .ended .watching ≠ Loop.spawning r.emission := by
      cases position <;> simp
    rw [waits_setLoop, waits_iff s listener table]
    simp [hloop, hnew, ListenersState.Handles, ListenersInput.Brings, ListenersState.setLoop]
  | next listener table item =>
    obtain ⟨position, hloop, ⟨emission, kind, rfl, -, -, -, rfl⟩ | ⟨rfl, rfl⟩ | ⟨rfl, rfl⟩⟩ :=
      ListenersState.next_cases h
    · have hwaits : (s.setLoop listener table (.spawning emission)).Waits r ↔
          s.Waits r ∨ r = ⟨listener, emission⟩ := by
        rw [waits_setLoop, waits_iff s listener table]
        cases r
        simp [hloop, eq_comm, or_comm]
      refine ⟨?_, by simp [ListenersInput.Brings]⟩
      change ((s.setLoop listener table (.spawning emission)).Waits r ∨ r ∈ s.handlers) ∨ False ↔
        (s.Waits r ∨ r ∈ s.handlers) ∨ r = ⟨listener, emission⟩
      rw [hwaits]
      tauto
    · simp [ListenersState.Handles, ListenersInput.Brings]
    · rw [waits_setLoop, waits_iff s listener table]
      simp [hloop, ListenersState.Handles, ListenersInput.Brings, ListenersState.setLoop]
  | spawn listener table =>
    obtain ⟨emission, hloop, -, rfl⟩ := ListenersState.spawn_cases h
    have hwaits : s.Waits r ↔
        (s.setLoop listener table (.watching (emission + 1))).Waits r ∨ r = ⟨listener, emission⟩ := by
      rw [waits_setLoop, waits_iff s listener table]
      cases r
      simp [hloop, eq_comm, or_comm]
    refine ⟨?_, by simp [ListenersInput.Brings, ListenersState.setLoop]⟩
    change ((s.setLoop listener table (.watching (emission + 1))).Waits r ∨
      r ∈ s.handlers ++ [⟨listener, emission⟩]) ∨ False ↔ (s.Waits r ∨ r ∈ s.handlers) ∨ False
    rw [hwaits, List.mem_append, List.mem_singleton]
    tauto
  | handle i context insertFails =>
    obtain ⟨reception, connector, -, -, rfl⟩ := ListenersState.handle_cases h
    refine ⟨?_, by simp [ListenersInput.Brings]⟩
    change (s.Waits r ∨ r ∈ s.handlers.eraseIdx i) ∨ s.handlers[i]? = some r ↔
      (s.Waits r ∨ r ∈ s.handlers) ∨ False
    rw [mem_eraseIdx_or (l := s.handlers) (i := i)]
    tauto
  | other input =>
    obtain ⟨-, connector, -, rfl⟩ := ListenersState.other_cases h
    simp [ListenersState.Handles, ListenersInput.Brings, ListenersState.Waits]

theorem published_step (h : s.step D emitted taskLimit input = some s') (m : ℕ) :
    s'.connector.Stored m ↔ s.connector.Stored m ∨ s.Publishes D emitted input m := by
  cases input with
  | subscribe listener table position =>
    obtain ⟨-, rfl⟩ := ListenersState.subscribe_cases h
    simp [ListenersState.Publishes, ListenersState.setLoop]
  | next listener table item =>
    obtain ⟨position, -, ⟨emission, kind, -, -, -, -, rfl⟩ | ⟨-, rfl⟩ | ⟨-, rfl⟩⟩ :=
      ListenersState.next_cases h <;>
      simp [ListenersState.Publishes, ListenersState.setLoop]
  | spawn listener table =>
    obtain ⟨emission, -, -, rfl⟩ := ListenersState.spawn_cases h
    simp [ListenersState.Publishes, ListenersState.setLoop]
  | handle i context insertFails =>
    obtain ⟨⟨listener, emission⟩, connector, hreception, hreceive, rfl⟩ :=
      ListenersState.handle_cases h
    rw [stored_receive hreceive]
    simp only [ListenersState.Publishes, hreception, Option.some.injEq, Reception.mk.injEq]
    grind
  | other input =>
    obtain ⟨hinput, connector, hstep, rfl⟩ := ListenersState.other_cases h
    rw [stored_step hinput hstep]
    simp [ListenersState.Publishes]

end Steps

/-! ## Runs -/

section Runs

variable (D : ConnectorDeployment) (emitted : List GatewayEventKind) (taskLimit : ℕ → ℕ)
  (past : List ListenersInput)

/-- The handler of a reception has ended in the run. -/
def Handled (r : Reception) : Prop :=
  ∃ s input, (listeners D emitted taskLimit).Took (fun _ _ => True) past s input ∧
    s.Handles input r

/-- A handler of the event has ended in the run with an insertion that was accepted. -/
def Published (emission : ℕ) : Prop :=
  ∃ s input, (listeners D emitted taskLimit).Took (fun _ _ => True) past s input ∧
    s.Publishes D emitted input emission

variable {D emitted taskLimit past} {s : ListenersState}

/-- Every event that was received has a handler, which is running or has ended. -/
theorem received_iff (hrun : (listeners D emitted taskLimit).Run (fun _ _ => True) past s)
    (r : Reception) : r ∈ s.received ↔ s.Running r ∨ Handled D emitted taskLimit past r := by
  refine hrun.invariant
    (P := fun past s => r ∈ s.received ↔ s.Running r ∨ Handled D emitted taskLimit past r) ?_ ?_
  · simp [listeners, ListenersState.init, ListenersState.Running, ListenersState.Waits, Handled]
  · intro past input s s' hrun ih _ hstep
    obtain ⟨hrunning, hreceived⟩ := running_step hstep r
    have hhandled : Handled D emitted taskLimit (input :: past) r ↔
        Handled D emitted taskLimit past r ∨ s.Handles input r := hrun.exists_took_cons
    rw [hreceived, ih, or_right_comm, ← hrunning, hhandled, or_assoc,
      or_comm (a := s.Handles input r)]

theorem stored_iff (hrun : (listeners D emitted taskLimit).Run (fun _ _ => True) past s)
    (m : ℕ) : s.connector.Stored m ↔ Published D emitted taskLimit past m := by
  refine hrun.invariant
    (P := fun past s => s.connector.Stored m ↔ Published D emitted taskLimit past m) ?_ ?_
  · simp [listeners, ListenersState.init, ConnectorState.init, ConnectorState.Stored, Published]
  · intro past input s s' hrun ih _ hstep
    have hpublished : Published D emitted taskLimit (input :: past) m ↔
        Published D emitted taskLimit past m ∨ s.Publishes D emitted input m :=
      hrun.exists_took_cons
    rw [published_step hstep, ih, hpublished]

end Runs

/-- When no handler of a listener is running, all events that it received are stored if and only if
each event that it handled was published, by itself or by another listener. -/
theorem stored_iff_published {D : ConnectorDeployment} {emitted : List GatewayEventKind}
    {taskLimit : ℕ → ℕ} {past : List ListenersInput} {s : ListenersState}
    (hrun : (listeners D emitted taskLimit).Run (fun _ _ => True) past s) {listener : ℕ}
    (hidle : s.Idle listener) :
    (∀ emission, ⟨listener, emission⟩ ∈ s.received → s.connector.Stored emission) ↔
      ∀ emission, Handled D emitted taskLimit past ⟨listener, emission⟩ →
        Published D emitted taskLimit past emission := by
  refine forall_congr' fun emission => ?_
  rw [received_iff hrun, stored_iff hrun, or_iff_right (hidle emission)]

/-! ## Samples -/

def sampleEmitted : List GatewayEventKind := [.publicDecryption 1 [] [], .keygen 2 3]

/-- Two listeners receive the same events. -/
def bothReceive : List ListenersInput :=
  [.spawn 1 .keygenRequests, .next 1 .keygenRequests (.ok 1), .spawn 0 .keygenRequests,
    .next 0 .keygenRequests (.ok 1), .subscribe 1 .keygenRequests (some 0),
    .subscribe 0 .keygenRequests (some 0), .spawn 1 .publicDecryptionRequests,
    .next 1 .publicDecryptionRequests (.ok 0), .spawn 0 .publicDecryptionRequests,
    .next 0 .publicDecryptionRequests (.ok 0), .subscribe 1 .publicDecryptionRequests (some 0),
    .subscribe 0 .publicDecryptionRequests (some 0)]

/-- The database rejects the first event of one listener, and takes it of the other. -/
def rejectedOnce : List ListenersInput :=
  [.handle 0 [] false, .handle 0 [] false, .handle 0 [] false, .handle 0 [] true] ++ bothReceive

/-- The database rejects the first event of both listeners, and takes the second. -/
def rejectedTwice : List ListenersInput :=
  [.handle 0 [] false, .handle 0 [] false, .handle 0 [] true, .handle 0 [] true] ++ bothReceive

def sampleListeners : System ListenersState ListenersInput :=
  listeners sampleConnector sampleEmitted fun _ => 1000

/-- The loops of a listener that has received both events. -/
def loopAfterBoth : RequestTable → Loop
  | .publicDecryptionRequests => .watching 1
  | .keygenRequests => .watching 2
  | _ => .unsubscribed

/-- A run of the samples that leaves the first listener without handlers. -/
theorem exists_idle (past : List ListenersInput) (inserted : List ℕ)
    (hstate : (sampleListeners.replay (fun _ _ => True) past).map (fun s =>
      (s.handlers, s.received, s.connector.inserted, s.connector.dropped)) =
        some ([], [⟨0, 0⟩, ⟨1, 0⟩, ⟨0, 1⟩, ⟨1, 1⟩], inserted, [(1, 1)]))
    (hloop : ∀ table, (sampleListeners.replay (fun _ _ => True) past).map
      (fun s => s.loop (0, table)) = some (loopAfterBoth table)) :
    ∃ s, sampleListeners.Run (fun _ _ => True) past s ∧ s.Idle 0 ∧
      s.received = [⟨0, 0⟩, ⟨1, 0⟩, ⟨0, 1⟩, ⟨1, 1⟩] ∧ s.connector.inserted = inserted ∧
        s.connector.dropped = [(1, 1)] := by
  obtain ⟨s, hs, hstate⟩ := Option.map_eq_some_iff.mp hstate
  simp only [Prod.mk.injEq] at hstate
  obtain ⟨hhandlers, hreceived, hinserted, hdropped⟩ := hstate
  refine ⟨s, System.run_of_replay hs, ?_, hreceived, hinserted, hdropped⟩
  rintro emission (⟨table, hspawning⟩ | hmem)
  · have hwatching := hloop table
    rw [hs, Option.map_some, hspawning] at hwatching
    cases table <;> cases hwatching
  · rw [hhandlers] at hmem
    cases hmem

/-- The other listener has published what the first could not. -/
theorem rejectedOnce_published : ∃ s, sampleListeners.Run (fun _ _ => True) rejectedOnce s ∧
    s.Idle 0 ∧ s.received = [⟨0, 0⟩, ⟨1, 0⟩, ⟨0, 1⟩, ⟨1, 1⟩] ∧
      ∀ emission, Handled sampleConnector sampleEmitted (fun _ => 1000) rejectedOnce ⟨0, emission⟩ →
        Published sampleConnector sampleEmitted (fun _ => 1000) rejectedOnce emission := by
  obtain ⟨s, hrun, hidle, hreceived, hinserted, -⟩ :=
    exists_idle rejectedOnce [0, 1] (by decide +kernel)
      (by intro table; cases table <;> decide +kernel)
  refine ⟨s, hrun, hidle, hreceived, (stored_iff_published hrun hidle).mp ?_⟩
  intro emission hmem
  refine .inl ?_
  rw [hinserted]
  simp only [hreceived, List.mem_cons, Reception.mk.injEq] at hmem
  grind

/-- An event is missed that both listeners have received. -/
theorem rejectedTwice_missed : ¬ ∀ (D : ConnectorDeployment) (emitted : List GatewayEventKind)
    (taskLimit : ℕ → ℕ) (past : List ListenersInput) (s : ListenersState),
      (listeners D emitted taskLimit).Run (fun _ _ => True) past s → ∀ listener, s.Idle listener →
        ∀ emission, ⟨listener, emission⟩ ∈ s.received → s.connector.Stored emission := by
  intro h
  obtain ⟨s, hrun, hidle, hreceived, hinserted, hdropped⟩ :=
    exists_idle rejectedTwice [1] (by decide +kernel)
      (by intro table; cases table <;> decide +kernel)
  have hstored := h sampleConnector sampleEmitted (fun _ => 1000) rejectedTwice s hrun 0 hidle 0
    (by simp [hreceived])
  simp [ConnectorState.Stored, hinserted, hdropped] at hstored

end Fhevm.KmsConnector
