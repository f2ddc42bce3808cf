import Fhevm.KmsConnector.Connector

/-!
# The gateway listeners of a connector

A listener has a loop for each stream of events. For every event that the stream brings, the loop
spawns a handler as soon as there is a permit, and goes on. The handlers publish to the one database
of the connector, and log an error.

## Main definitions

* `Loop`, `Reception` — a loop of a listener, and an event that a listener received.
* `ListenersState`, `ListenersInput` — all listeners, and the rest of the connector.
* `listeners` — the system.

## Main results

* `connector_run` — the listeners make runs of the connector.
* `received_nodup` — no listener receives an event twice.
-/

namespace Fhevm.KmsConnector

open Foundation

/-! ## Data -/

/-- A loop of `subscribe_to_events`. -/
inductive Loop
  | unsubscribed
  /-- The next event is at the position, or later. -/
  | watching (position : ℕ)
  /-- The handler of an emission waits for a permit. -/
  | spawning (emission : ℕ)
  | ended
deriving DecidableEq, Repr

structure Reception where
  listener : ℕ
  emission : ℕ
deriving DecidableEq, Repr

/-- Handlers run for receptions. A listener that is started again has another number. -/
structure ListenersState where
  connector : ConnectorState
  loop : ℕ × RequestTable → Loop
  handlers : List Reception
  received : List Reception

def ListenersState.init : ListenersState where
  connector := .init
  loop _ := .unsubscribed
  handlers := []
  received := []

/-- What `events.next()` gives. -/
inductive StreamItem
  | ok (emission : ℕ)
  | err
  | none
deriving DecidableEq, Repr

inductive ListenersInput
  /-- There is no position if the subscription fails. -/
  | subscribe (listener : ℕ) (table : RequestTable) (position : Option ℕ)
  | next (listener : ℕ) (table : RequestTable) (item : StreamItem)
  /-- A loop gets its permit. -/
  | spawn (listener : ℕ) (table : RequestTable)
  /-- A handler publishes its event, and ends. -/
  | handle (i : ℕ) (context : PropagationContext) (insertFails : Bool)
  /-- The workers and the sender make a step. -/
  | other (input : ConnectorInput)

/-! ## Steps -/

section Steps

variable (D : ConnectorDeployment) (emitted : List GatewayEventKind) (taskLimit : ℕ → ℕ)

namespace ListenersState

def setLoop (s : ListenersState) (listener : ℕ) (table : RequestTable) (loop : Loop) :
    ListenersState :=
  { s with loop := Function.update s.loop (listener, table) loop }

def subscribe (s : ListenersState) (listener : ℕ) (table : RequestTable) (position : Option ℕ) :
    Option ListenersState :=
  match s.loop (listener, table) with
  | .unsubscribed => some (s.setLoop listener table (position.elim .ended .watching))
  | _ => none

def next (s : ListenersState) (listener : ℕ) (table : RequestTable) (item : StreamItem) :
    Option ListenersState :=
  match s.loop (listener, table), item with
  | .watching position, .ok emission => do
    let kind ← emitted[emission]?
    guard (kind.key.1 = table ∧ position ≤ emission)
    return { s.setLoop listener table (.spawning emission) with
      received := s.received ++ [⟨listener, emission⟩] }
  -- the error is logged
  | .watching _, .err => some s
  | .watching _, .none => some (s.setLoop listener table .ended)
  | _, _ => none

def running (s : ListenersState) (listener : ℕ) : ℕ :=
  s.handlers.countP fun reception => reception.listener = listener

def spawn (s : ListenersState) (listener : ℕ) (table : RequestTable) : Option ListenersState :=
  match s.loop (listener, table) with
  | .spawning emission => do
    guard (s.running listener < taskLimit listener)
    return { s.setLoop listener table (.watching (emission + 1)) with
      handlers := s.handlers ++ [⟨listener, emission⟩] }
  | _ => none

def handle (s : ListenersState) (i : ℕ) (context : PropagationContext) (insertFails : Bool) :
    Option ListenersState := do
  let reception ← s.handlers[i]?
  let connector ← s.connector.receive D emitted reception.emission context insertFails
  return { s with connector, handlers := s.handlers.eraseIdx i }

def other (s : ListenersState) : ConnectorInput → Option ListenersState
  | .receive _ _ _ => none
  | input => do
    let connector ← s.connector.step D emitted input
    return { s with connector }

def step (s : ListenersState) : ListenersInput → Option ListenersState
  | .subscribe listener table position => s.subscribe listener table position
  | .next listener table item => s.next emitted listener table item
  | .spawn listener table => s.spawn taskLimit listener table
  | .handle i context insertFails => s.handle D emitted i context insertFails
  | .other input => s.other D emitted input

end ListenersState

/-- The listeners of a connector, for the events that the gateway emits. -/
def listeners : System ListenersState ListenersInput where
  init := .init
  step := ListenersState.step D emitted taskLimit

end Steps

/-! ## What a step does -/

namespace ListenersState

variable {D : ConnectorDeployment} {emitted : List GatewayEventKind} {taskLimit : ℕ → ℕ}
  {s s' : ListenersState}

theorem subscribe_cases {listener : ℕ} {table : RequestTable} {position : Option ℕ}
    (h : s.subscribe listener table position = some s') :
    s.loop (listener, table) = .unsubscribed ∧
      s' = s.setLoop listener table (position.elim .ended .watching) := by
  unfold subscribe at h
  split at h
  · next hloop => exact ⟨hloop, (Option.some.inj h).symm⟩
  · cases h

theorem next_cases {listener : ℕ} {table : RequestTable} {item : StreamItem}
    (h : s.next emitted listener table item = some s') :
    ∃ position, s.loop (listener, table) = .watching position ∧
      ((∃ emission kind, item = .ok emission ∧ emitted[emission]? = some kind ∧
          kind.key.1 = table ∧ position ≤ emission ∧
          s' = { s.setLoop listener table (.spawning emission) with
            received := s.received ++ [⟨listener, emission⟩] }) ∨
        (item = .err ∧ s' = s) ∨
        (item = .none ∧ s' = s.setLoop listener table .ended)) := by
  unfold next at h
  split at h
  · next position emission hloop =>
    simp only [Option.bind_eq_bind, Option.bind_eq_some_iff, Option.guard_eq_some',
      Option.pure_def, Option.some.injEq] at h
    obtain ⟨kind, hkind, _, ⟨htable, hposition⟩, rfl⟩ := h
    exact ⟨position, hloop, .inl ⟨emission, kind, rfl, hkind, htable, hposition, rfl⟩⟩
  · next position hloop => exact ⟨position, hloop, .inr (.inl ⟨rfl, (Option.some.inj h).symm⟩)⟩
  · next position hloop => exact ⟨position, hloop, .inr (.inr ⟨rfl, (Option.some.inj h).symm⟩)⟩
  · cases h

theorem spawn_cases {listener : ℕ} {table : RequestTable}
    (h : s.spawn taskLimit listener table = some s') :
    ∃ emission, s.loop (listener, table) = .spawning emission ∧
      s.running listener < taskLimit listener ∧
      s' = { s.setLoop listener table (.watching (emission + 1)) with
        handlers := s.handlers ++ [⟨listener, emission⟩] } := by
  unfold spawn at h
  split at h
  · next emission hloop =>
    simp only [Option.bind_eq_bind, Option.bind_eq_some_iff, Option.guard_eq_some',
      Option.pure_def, Option.some.injEq] at h
    obtain ⟨_, hpermit, rfl⟩ := h
    exact ⟨emission, hloop, hpermit, rfl⟩
  · cases h

theorem handle_cases {i : ℕ} {context : PropagationContext} {insertFails : Bool}
    (h : s.handle D emitted i context insertFails = some s') :
    ∃ reception connector, s.handlers[i]? = some reception ∧
      s.connector.receive D emitted reception.emission context insertFails = some connector ∧
      s' = { s with connector, handlers := s.handlers.eraseIdx i } := by
  obtain ⟨reception, hreception, h⟩ := Option.bind_eq_some_iff.mp h
  obtain ⟨connector, hconnector, h⟩ := Option.bind_eq_some_iff.mp h
  exact ⟨reception, connector, hreception, hconnector, (Option.some.inj h).symm⟩

theorem other_cases {input : ConnectorInput} (h : s.other D emitted input = some s') :
    (∀ emission context insertFails, input ≠ .receive emission context insertFails) ∧
      ∃ connector, s.connector.step D emitted input = some connector ∧
        s' = { s with connector } := by
  cases input with
  | receive => cases h
  | pickEvents | send | answer | publishResponse | pickResponses | forwardResponse =>
    obtain ⟨connector, hconnector, h⟩ := Option.bind_eq_some_iff.mp h
    exact ⟨nofun, connector, hconnector, (Option.some.inj h).symm⟩
  | stopWorker | stopSender => exact ⟨nofun, _, rfl, (Option.some.inj h).symm⟩

/-- A handler is the only part of a listener that has to do with the database. -/
theorem connector_step {input : ListenersInput} (h : s.step D emitted taskLimit input = some s') :
    s'.connector = s.connector ∨
      ∃ input', s.connector.step D emitted input' = some s'.connector := by
  cases input with
  | subscribe listener table position =>
    obtain ⟨-, rfl⟩ := subscribe_cases h
    exact .inl rfl
  | next listener table item =>
    obtain ⟨position, -, ⟨emission, kind, -, -, -, -, rfl⟩ | ⟨-, rfl⟩ | ⟨-, rfl⟩⟩ := next_cases h <;>
      exact .inl rfl
  | spawn listener table =>
    obtain ⟨emission, -, -, rfl⟩ := spawn_cases h
    exact .inl rfl
  | handle i context insertFails =>
    obtain ⟨reception, connector, -, hreceive, rfl⟩ := handle_cases h
    exact .inr ⟨.receive reception.emission context insertFails, hreceive⟩
  | other input =>
    obtain ⟨-, connector, hstep, rfl⟩ := other_cases h
    exact .inr ⟨input, hstep⟩

end ListenersState

section Runs

variable {D : ConnectorDeployment} {emitted : List GatewayEventKind} {taskLimit : ℕ → ℕ}
  {past : List ListenersInput} {s s' : ListenersState}

/-- The connector of a run of the listeners has made a run. -/
theorem connector_run (h : (listeners D emitted taskLimit).Run (fun _ _ => True) past s) :
    ∃ past', (connector D emitted).Run (fun _ _ => True) past' s.connector := by
  induction h with
  | start => exact ⟨[], .start⟩
  | step hrun hallowed hstep ih =>
    obtain ⟨past', hpast'⟩ := ih
    obtain heq | ⟨input, hinput⟩ := ListenersState.connector_step hstep
    · exact ⟨past', heq ▸ hpast'⟩
    · exact ⟨input :: past', hpast'.step trivial hinput⟩

/-! ## Positions -/

/-- The loop does not get the emission any more. -/
def Loop.IsPast (emission : ℕ) : Loop → Prop
  | unsubscribed => False
  | watching position => emission < position
  | spawning current => emission ≤ current
  | ended => True

/-- The loop of an event that was received is past it. -/
def ListenersState.Advanced (emitted : List GatewayEventKind) (s : ListenersState) : Prop :=
  ∀ r ∈ s.received, ∃ kind, emitted[r.emission]? = some kind ∧
    (s.loop (r.listener, kind.key.1)).IsPast r.emission

/-- A loop that goes on stays past what it has got. -/
theorem ListenersState.Advanced.setLoop (hs : s.Advanced emitted) {listener : ℕ}
    {table : RequestTable} {loop : Loop}
    (hloop : ∀ emission, (s.loop (listener, table)).IsPast emission → loop.IsPast emission) :
    (s.setLoop listener table loop).Advanced emitted := by
  intro r hr
  obtain ⟨kind, hkind, hpast⟩ := hs r hr
  refine ⟨kind, hkind, ?_⟩
  by_cases heq : (r.listener, kind.key.1) = (listener, table)
  · rw [heq] at hpast ⊢
    simpa [ListenersState.setLoop] using hloop _ hpast
  · simpa [ListenersState.setLoop, Function.update_of_ne heq] using hpast

theorem advanced_step (hs : s.Advanced emitted ∧ s.received.Nodup) {input : ListenersInput}
    (h : s.step D emitted taskLimit input = some s') :
    s'.Advanced emitted ∧ s'.received.Nodup := by
  obtain ⟨hadvanced, hnodup⟩ := hs
  cases input with
  | subscribe listener table position =>
    obtain ⟨hloop, rfl⟩ := ListenersState.subscribe_cases h
    exact ⟨hadvanced.setLoop fun emission hpast => by simp [hloop, Loop.IsPast] at hpast, hnodup⟩
  | next listener table item =>
    obtain ⟨position, hloop, ⟨emission, kind, -, hkind, rfl, hposition, rfl⟩ | ⟨-, rfl⟩ |
      ⟨-, rfl⟩⟩ := ListenersState.next_cases h
    · constructor
      · intro r hr
        obtain hr | hr := List.mem_append.mp hr
        · refine hadvanced.setLoop (fun m hpast => ?_) r hr
          rw [hloop] at hpast
          exact (Nat.lt_of_lt_of_le hpast hposition).le
        · obtain rfl := List.mem_singleton.mp hr
          exact ⟨kind, hkind, by simp [ListenersState.setLoop, Loop.IsPast]⟩
      · refine hnodup.append (List.nodup_singleton _) (List.disjoint_singleton.mpr fun hr => ?_)
        obtain ⟨kind', hkind', hpast⟩ := hadvanced _ hr
        obtain rfl := Option.some.inj (hkind.symm.trans hkind')
        rw [hloop] at hpast
        exact absurd hposition (Nat.not_le.mpr hpast)
    · exact ⟨hadvanced, hnodup⟩
    · exact ⟨hadvanced.setLoop fun emission hpast => trivial, hnodup⟩
  | spawn listener table =>
    obtain ⟨emission, hloop, -, rfl⟩ := ListenersState.spawn_cases h
    refine ⟨hadvanced.setLoop fun m hpast => ?_, hnodup⟩
    rw [hloop] at hpast
    exact Nat.lt_succ_of_le hpast
  | handle i context insertFails =>
    obtain ⟨reception, connector, -, -, rfl⟩ := ListenersState.handle_cases h
    exact ⟨hadvanced, hnodup⟩
  | other input =>
    obtain ⟨-, connector, -, rfl⟩ := ListenersState.other_cases h
    exact ⟨hadvanced, hnodup⟩

/-- An event that could not be stored is not received again. -/
theorem received_nodup (h : (listeners D emitted taskLimit).Run (fun _ _ => True) past s) :
    s.received.Nodup := by
  suffices hs : s.Advanced emitted ∧ s.received.Nodup from hs.2
  refine h.invariant (P := fun _ s => s.Advanced emitted ∧ s.received.Nodup) ?_ ?_
  · exact ⟨nofun, List.nodup_nil⟩
  · exact fun past input s s' _ hs _ hstep => advanced_step hs hstep

end Runs

end Fhevm.KmsConnector
