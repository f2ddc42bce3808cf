import Fhevm.Common.Evm
import Fhevm.Foundation.Contract

/-!
# Decryption requests of a dapp

A dapp numbers its requests. The number is read before the oracle is called and counted up after
the oracle has returned, so a request that is made in between gets the same number.

## Main definitions

* `requestDecryption`, `requestDecryptionWithoutSavingHandles`, `checkSignatures` — the functions
  of the library.
* `RequestsServed` — each request has a number and handles of its own.
* `Undisturbed` — the oracle leaves the counter of the dapp as it is.
* `requestsServed_iff` — requests are served exactly if they are undisturbed.
-/

namespace Fhevm.LibrarySolidity

open Foundation

/-! ## The source -/

inductive FHEError
  | noHandleFoundForRequestID
  | handlesAlreadySavedForRequestID
  | invalidKMSSignatures
  | arithmeticOverflow
  /-- The ACL, the oracle, the verifier or the code around a call reverts. -/
  | reverted
deriving DecidableEq, Repr

structure DecryptionRequests where
  counterRequest : ℕ
  requestedHandles : ℕ → List Bytes32

/-- The storage of a dapp that is deployed. -/
def DecryptionRequests.init : DecryptionRequests := ⟨0, fun _ => []⟩

/-- What is seen of the calls that do not revert. -/
inductive RequestEvent
  /-- The oracle was called, and the counter was this one when it returned. -/
  | oracleCalled (requestID : ℕ) (ctsHandles : List Bytes32) (callbackSelector : BitVec 32)
      (msgValue counterRequest : ℕ)
  /-- A request returned its id; its handles are to be saved or not. -/
  | returned (requestID : ℕ) (saved : Bool) (ctsHandles : List Bytes32)
  /-- The KMS verifier accepted the other arguments for these handles. -/
  | decryptionFulfilled (requestID : ℕ) (handlesList : List Bytes32)
      (cleartexts decryptionProof : Bytes)
deriving DecidableEq, Repr

/-- What is done while the dapp waits for another contract. -/
abbrev Waiting := Effect DecryptionRequests FHEError RequestEvent

/-- The arguments of a request, and whether the ACL allows the handles for decryption. -/
structure DecryptionRequest where
  ctsHandles : List Bytes32
  callbackSelector : BitVec 32
  msgValue : ℕ := 0
  allowForDecryption : Bool := true
deriving DecidableEq, Repr

def loadRequestedHandles (s : DecryptionRequests) (requestID : ℕ) :
    Except FHEError (List Bytes32) := do
  require ((s.requestedHandles requestID).length ≠ 0) .noHandleFoundForRequestID
  .ok (s.requestedHandles requestID)

def saveRequestedHandles (s : DecryptionRequests) (requestID : ℕ) (handlesList : List Bytes32) :
    Except FHEError DecryptionRequests := do
  require ((s.requestedHandles requestID).length = 0) .handlesAlreadySavedForRequestID
  .ok { s with requestedHandles := Function.update s.requestedHandles requestID handlesList }

/-- The counter is read for the id, and read again when the oracle has returned. -/
def requestDecryptionWithoutSavingHandles (r : DecryptionRequest) (oracle : Waiting)
    (s : DecryptionRequests) : Except FHEError (ℕ × List RequestEvent × DecryptionRequests) := do
  let requestID := s.counterRequest
  require (r.allowForDecryption = true) .reverted
  let (events, s) ← oracle s
  let called := .oracleCalled requestID r.ctsHandles r.callbackSelector r.msgValue s.counterRequest
  let counterRequest ← increment 256 s.counterRequest .arithmeticOverflow
  .ok (requestID, events ++ [called], { s with counterRequest })

def requestDecryption (r : DecryptionRequest) (oracle : Waiting) (s : DecryptionRequests) :
    Except FHEError (ℕ × List RequestEvent × DecryptionRequests) := do
  let (requestID, events, s) ← requestDecryptionWithoutSavingHandles r oracle s
  let s ← saveRequestedHandles s requestID r.ctsHandles
  .ok (requestID, events, s)

/-- The answer of the KMS verifier on handles, clear texts and a proof. -/
abbrev KMSVerifier := List Bytes32 → Bytes → Bytes → Bool

def checkSignatures (verify : KMSVerifier) (requestID : ℕ) (cleartexts decryptionProof : Bytes)
    (verifier : Waiting) : Waiting := fun s => do
  let handlesList ← loadRequestedHandles s requestID
  let (events, s) ← verifier s
  require (verify handlesList cleartexts decryptionProof = true) .invalidKMSSignatures
  .ok (events ++ [.decryptionFulfilled requestID handlesList cleartexts decryptionProof], s)

/-- The calls that a dapp makes of the library. -/
inductive FHECall
  | requestDecryption (r : DecryptionRequest)
  | requestDecryptionWithoutSavingHandles (r : DecryptionRequest)
  | checkSignatures (verify : KMSVerifier) (requestID : ℕ) (cleartexts decryptionProof : Bytes)

/-- One call; a request that returns is recorded with its id. -/
def FHECall.run : FHECall → Waiting → Waiting
  | .requestDecryption r, oracle, s => do
    let (requestID, events, s) ← LibrarySolidity.requestDecryption r oracle s
    .ok (events ++ [.returned requestID true r.ctsHandles], s)
  | .requestDecryptionWithoutSavingHandles r, oracle, s => do
    let (requestID, events, s) ← LibrarySolidity.requestDecryptionWithoutSavingHandles r oracle s
    .ok (events ++ [.returned requestID false r.ctsHandles], s)
  | .checkSignatures verify requestID cleartexts decryptionProof, verifier, s =>
    LibrarySolidity.checkSignatures verify requestID cleartexts decryptionProof verifier s

/-- The events and the storage after the calls of a dapp. -/
abbrev runDapp (calls : Calls FHECall) : Waiting := calls.exec FHECall.run .reverted

/-! ## Steps -/

section Steps

variable {r : DecryptionRequest} {s s' : DecryptionRequests} {requestID : ℕ}
  {events : List RequestEvent} {waiting : Waiting}

theorem requestDecryptionWithoutSavingHandles_eq_ok :
    requestDecryptionWithoutSavingHandles r waiting s = .ok (requestID, events, s') ↔
      r.allowForDecryption = true ∧ ∃ inner s₁, waiting s = .ok (inner, s₁) ∧
        s₁.counterRequest + 1 < 2 ^ 256 ∧ requestID = s.counterRequest ∧
        events = inner ++ [.oracleCalled requestID r.ctsHandles r.callbackSelector r.msgValue
          s₁.counterRequest] ∧
        s' = { s₁ with counterRequest := s₁.counterRequest + 1 } := by
  simp only [requestDecryptionWithoutSavingHandles, bind_eq_ok, require_eq_ok, increment_eq_ok,
    Prod.exists, Except.ok.injEq, Prod.mk.injEq, exists_const]
  grind

theorem requestDecryption_eq_ok :
    requestDecryption r waiting s = .ok (requestID, events, s') ↔ ∃ s₂,
      requestDecryptionWithoutSavingHandles r waiting s = .ok (requestID, events, s₂) ∧
        s₂.requestedHandles requestID = [] ∧
        s' = { s₂ with requestedHandles :=
          Function.update s₂.requestedHandles requestID r.ctsHandles } := by
  simp only [requestDecryption, saveRequestedHandles, bind_eq_ok, require_eq_ok, Prod.exists,
    Except.ok.injEq, Prod.mk.injEq, exists_const, List.length_eq_zero_iff]
  grind

theorem checkSignatures_eq_ok {verify : KMSVerifier} {cleartexts decryptionProof : Bytes} :
    checkSignatures verify requestID cleartexts decryptionProof waiting s = .ok (events, s') ↔
      s.requestedHandles requestID ≠ [] ∧ ∃ inner, waiting s = .ok (inner, s') ∧
        verify (s.requestedHandles requestID) cleartexts decryptionProof = true ∧
        events = inner ++ [.decryptionFulfilled requestID (s.requestedHandles requestID) cleartexts
          decryptionProof] := by
  simp only [checkSignatures, loadRequestedHandles, bind_eq_ok, require_eq_ok, Prod.exists,
    Except.ok.injEq, Prod.mk.injEq, exists_const, ne_eq, List.length_eq_zero_iff]
  grind

/-- What a request does around the calls that are made while it waits. -/
def RequestStep (s : DecryptionRequests) (inner : List RequestEvent) (s₁ : DecryptionRequests)
    (events : List RequestEvent) (s' : DecryptionRequests) : Prop :=
  ∃ (r : DecryptionRequest) (saved : Bool),
    events = inner ++
      [.oracleCalled s.counterRequest r.ctsHandles r.callbackSelector r.msgValue s₁.counterRequest,
        .returned s.counterRequest saved r.ctsHandles] ∧
    s'.counterRequest = s₁.counterRequest + 1 ∧
    s'.requestedHandles = if saved = true then
      Function.update s₁.requestedHandles s.counterRequest r.ctsHandles else s₁.requestedHandles

/-- A check that succeeds, of the handles that were stored when it started. -/
def CheckStep (s : DecryptionRequests) (inner events : List RequestEvent) : Prop :=
  ∃ requestID cleartexts decryptionProof, s.requestedHandles requestID ≠ [] ∧
    events = inner ++ [.decryptionFulfilled requestID (s.requestedHandles requestID) cleartexts
      decryptionProof]

/-- A call that does not revert is a request or a check. -/
theorem FHECall.run_cases {i : FHECall} (h : i.run waiting s = .ok (events, s')) :
    ∃ inner s₁, waiting s = .ok (inner, s₁) ∧
      (RequestStep s inner s₁ events s' ∨ (s₁ = s' ∧ CheckStep s inner events)) := by
  cases i with
  | requestDecryption r =>
    simp only [run, bind_eq_ok, Prod.exists, Except.ok.injEq, Prod.mk.injEq,
      requestDecryption_eq_ok, requestDecryptionWithoutSavingHandles_eq_ok] at h
    obtain ⟨_, _, _, ⟨_, ⟨-, inner, s₁, hwaiting, -, rfl, rfl, rfl⟩, -, rfl⟩, rfl, rfl⟩ := h
    exact ⟨inner, s₁, hwaiting, .inl ⟨r, true, by simp, rfl, by simp⟩⟩
  | requestDecryptionWithoutSavingHandles r =>
    simp only [run, bind_eq_ok, Prod.exists, Except.ok.injEq, Prod.mk.injEq,
      requestDecryptionWithoutSavingHandles_eq_ok] at h
    obtain ⟨_, _, _, ⟨-, inner, s₁, hwaiting, -, rfl, rfl, rfl⟩, rfl, rfl⟩ := h
    exact ⟨inner, s₁, hwaiting, .inl ⟨r, false, by simp, rfl, by simp⟩⟩
  | checkSignatures verify requestID cleartexts decryptionProof =>
    obtain ⟨hstored, inner, hwaiting, -, rfl⟩ := checkSignatures_eq_ok.mp h
    exact ⟨inner, s', hwaiting, .inr ⟨rfl, requestID, cleartexts, decryptionProof, hstored, rfl⟩⟩

end Steps

/-! ## Runs -/

/-- The ids that the requests return. -/
def requestIDs (events : List RequestEvent) : List ℕ :=
  events.filterMap fun
    | .returned requestID _ _ => some requestID
    | _ => none

/-- The oracle leaves the counter as it is: no request that is made while it is called remains. -/
def Undisturbed (events : List RequestEvent) : Prop :=
  ∀ requestID ctsHandles callbackSelector msgValue counterRequest,
    .oracleCalled requestID ctsHandles callbackSelector msgValue counterRequest ∈ events →
      counterRequest = requestID

section Runs

variable {s s₁ s₂ s' : DecryptionRequests} {events later inner : List RequestEvent}

@[simp] theorem requestIDs_append :
    requestIDs (events ++ later) = requestIDs events ++ requestIDs later :=
  List.filterMap_append

theorem undisturbed_append :
    Undisturbed (events ++ later) ↔ Undisturbed events ∧ Undisturbed later := by
  unfold Undisturbed
  grind

theorem mem_requestIDs {requestID : ℕ} :
    requestID ∈ requestIDs events ↔ ∃ saved hs, .returned requestID saved hs ∈ events := by
  unfold requestIDs
  rw [List.mem_filterMap]
  constructor
  · rintro ⟨e, he, heq⟩
    cases e with
    | oracleCalled | decryptionFulfilled => cases heq
    | returned id saved hs =>
      obtain rfl := Option.some.inj heq
      exact ⟨saved, hs, he⟩
  · rintro ⟨saved, hs, he⟩
    exact ⟨_, he, rfl⟩

/-- The counter is the number of requests, and the first of them returns the counter as it was. -/
structure Counted (s : DecryptionRequests) (events : List RequestEvent) (s' : DecryptionRequests) :
    Prop where
  counter : s'.counterRequest = s.counterRequest + (requestIDs events).length
  first : requestIDs events ≠ [] → s.counterRequest ∈ requestIDs events
  undisturbed : (requestIDs events).Nodup → Undisturbed events

theorem Counted.refl (s : DecryptionRequests) : Counted s [] s :=
  ⟨by simp [requestIDs], by simp [requestIDs], by simp [Undisturbed]⟩

theorem Counted.trans (h₁ : Counted s events s₁) (h₂ : Counted s₁ later s₂) :
    Counted s (events ++ later) s₂ := by
  have hcounter := h₁.counter
  refine ⟨?_, fun hne => ?_, fun hnodup => ?_⟩
  · rw [h₂.counter, hcounter, requestIDs_append, List.length_append, Nat.add_assoc]
  · rw [requestIDs_append] at hne ⊢
    by_cases hempty : requestIDs events = []
    · have hsame : s₁.counterRequest = s.counterRequest := by simp [hcounter, hempty]
      rw [hempty, List.nil_append] at hne ⊢
      exact hsame ▸ h₂.first hne
    · exact List.mem_append_left _ (h₁.first hempty)
  · rw [requestIDs_append, List.nodup_append] at hnodup
    exact undisturbed_append.mpr ⟨h₁.undisturbed hnodup.1, h₂.undisturbed hnodup.2.1⟩

theorem RequestStep.counted (h : RequestStep s inner s₁ events s') (hinner : Counted s inner s₁) :
    Counted s events s' := by
  obtain ⟨r, saved, rfl, hcounter, -⟩ := h
  have hids : requestIDs (inner ++ [.oracleCalled s.counterRequest r.ctsHandles r.callbackSelector
      r.msgValue s₁.counterRequest, .returned s.counterRequest saved r.ctsHandles]) =
      requestIDs inner ++ [s.counterRequest] := by
    simp [requestIDs]
  refine ⟨?_, fun _ => by simp [hids], fun hnodup => ?_⟩
  · rw [hids, List.length_append, List.length_singleton]
    have := hinner.counter
    omega
  · rw [hids, List.nodup_append] at hnodup
    -- the first request that the oracle makes has the same id
    have hnone : requestIDs inner = [] := by
      by_contra hsome
      exact hnodup.2.2 _ (hinner.first hsome) _ (by simp) rfl
    have hsame : s₁.counterRequest = s.counterRequest := by simp [hinner.counter, hnone]
    refine undisturbed_append.mpr ⟨hinner.undisturbed hnodup.1, ?_⟩
    unfold Undisturbed
    grind

theorem CheckStep.counted (h : CheckStep s inner events) (hinner : Counted s inner s') :
    Counted s events s' := by
  obtain ⟨requestID, cleartexts, decryptionProof, -, rfl⟩ := h
  have hids : requestIDs (inner ++ [.decryptionFulfilled requestID (s.requestedHandles requestID)
      cleartexts decryptionProof]) = requestIDs inner := by
    simp [requestIDs]
  refine ⟨by rw [hids, hinner.counter], fun hne => ?_, fun hnodup => ?_⟩
  · rw [hids] at hne ⊢
    exact hinner.first hne
  · rw [hids] at hnodup
    refine undisturbed_append.mpr ⟨hinner.undisturbed hnodup, ?_⟩
    simp [Undisturbed]

theorem counted_runDapp (calls : Calls FHECall) (h : runDapp calls s = .ok (events, s')) :
    Counted s events s' := by
  refine Calls.exec_rel .refl .trans (fun hduring hcall => ?_) calls h
  obtain ⟨inner, s₁, hinner, hstep | ⟨rfl, hstep⟩⟩ := FHECall.run_cases hcall
  · exact hstep.counted (hduring hinner)
  · exact hstep.counted (hduring hinner)

/-- No handles are stored for ids that are still to come. -/
def Fresh (s : DecryptionRequests) : Prop :=
  ∀ requestID, s.counterRequest ≤ requestID → s.requestedHandles requestID = []

/-- Requests get new ids and the handles that they save are stored for them; other handles stay as
they are, and checks are of handles that are still stored. -/
structure Served (s : DecryptionRequests) (events : List RequestEvent) (s' : DecryptionRequests) :
    Prop where
  le : s.counterRequest ≤ s'.counterRequest
  range : ∀ requestID ∈ requestIDs events,
    s.counterRequest ≤ requestID ∧ requestID < s'.counterRequest
  nodup : (requestIDs events).Nodup
  old : ∀ requestID < s.counterRequest,
    s'.requestedHandles requestID = s.requestedHandles requestID
  stored : ∀ requestID saved ctsHandles, .returned requestID saved ctsHandles ∈ events →
    s'.requestedHandles requestID = if saved = true then ctsHandles else []
  checked : ∀ requestID handlesList cleartexts decryptionProof,
    .decryptionFulfilled requestID handlesList cleartexts decryptionProof ∈ events →
      requestID < s'.counterRequest ∧ handlesList ≠ [] ∧
        s'.requestedHandles requestID = handlesList
  fresh : Fresh s'

theorem Served.refl (h : Fresh s) : Served s [] s :=
  ⟨le_rfl, by simp [requestIDs], by simp [requestIDs], fun _ _ => rfl, by simp, by simp, h⟩

theorem Served.trans (h₁ : Served s events s₁) (h₂ : Served s₁ later s₂) :
    Served s (events ++ later) s₂ where
  le := h₁.le.trans h₂.le
  range requestID hmem := by
    rw [requestIDs_append, List.mem_append] at hmem
    have := h₁.le
    have := h₂.le
    rcases hmem with hmem | hmem
    · have := h₁.range requestID hmem
      omega
    · have := h₂.range requestID hmem
      omega
  nodup := by
    rw [requestIDs_append, List.nodup_append]
    refine ⟨h₁.nodup, h₂.nodup, fun a ha b hb => ?_⟩
    have := h₁.range a ha
    have := h₂.range b hb
    omega
  old requestID hlt := (h₂.old requestID (hlt.trans_le h₁.le)).trans (h₁.old requestID hlt)
  stored requestID saved ctsHandles hmem := by
    rcases List.mem_append.mp hmem with hmem | hmem
    · have hlt := (h₁.range requestID (mem_requestIDs.mpr ⟨saved, ctsHandles, hmem⟩)).2
      rw [h₂.old requestID hlt, h₁.stored requestID saved ctsHandles hmem]
    · exact h₂.stored requestID saved ctsHandles hmem
  checked requestID handlesList cleartexts decryptionProof hmem := by
    rcases List.mem_append.mp hmem with hmem | hmem
    · obtain ⟨hlt, hne, hstored⟩ := h₁.checked _ _ _ _ hmem
      exact ⟨hlt.trans_le h₂.le, hne, (h₂.old requestID hlt).trans hstored⟩
    · exact h₂.checked _ _ _ _ hmem
  fresh := h₂.fresh

theorem RequestStep.served (h : RequestStep s inner s₁ events s') (hdone : Undisturbed events)
    (hinner : Served s inner s₁) : Served s events s' := by
  obtain ⟨r, saved, rfl, hcounter, hhandles⟩ := h
  obtain ⟨-, hcalled⟩ := undisturbed_append.mp hdone
  have hsame : s₁.counterRequest = s.counterRequest := hcalled _ _ _ _ _ List.mem_cons_self
  have hnone : requestIDs inner = [] := by
    refine List.eq_nil_iff_forall_not_mem.mpr fun requestID hmem => ?_
    have := hinner.range requestID hmem
    omega
  have hids : requestIDs (inner ++ [.oracleCalled s.counterRequest r.ctsHandles r.callbackSelector
      r.msgValue s₁.counterRequest, .returned s.counterRequest saved r.ctsHandles]) =
      [s.counterRequest] := by
    rw [requestIDs_append, hnone]
    rfl
  have hother : ∀ requestID, requestID ≠ s.counterRequest →
      s'.requestedHandles requestID = s₁.requestedHandles requestID := by
    intro requestID hne
    rw [hhandles]
    split_ifs
    · exact Function.update_of_ne hne _ _
    · rfl
  refine
    { le := by omega
      range := by rw [hids]; simp; omega
      nodup := by rw [hids]; simp
      old := fun requestID hlt => (hother requestID hlt.ne).trans (hinner.old requestID hlt)
      stored := fun requestID saved' ctsHandles hmem => ?_
      checked := fun requestID handlesList cleartexts decryptionProof hmem => ?_
      fresh := fun requestID hle => ?_ }
  · rcases List.mem_append.mp hmem with hmem | hmem
    · have := mem_requestIDs.mpr ⟨saved', ctsHandles, hmem⟩
      simp [hnone] at this
    · obtain ⟨rfl, rfl, rfl⟩ := by simpa using hmem
      rw [hhandles]
      cases saved' with
      | true => simp
      | false => simpa using hinner.fresh _ hsame.le
  · rcases List.mem_append.mp hmem with hmem | hmem
    · obtain ⟨hlt, hne, hstored⟩ := hinner.checked _ _ _ _ hmem
      exact ⟨by omega, hne, (hother requestID (by omega)).trans hstored⟩
    · simp at hmem
  · rw [hother requestID (by omega)]
    exact hinner.fresh requestID (by omega)

theorem CheckStep.served (h : CheckStep s inner events) (hs : Fresh s)
    (hinner : Served s inner s') : Served s events s' := by
  obtain ⟨requestID, cleartexts, decryptionProof, hne, rfl⟩ := h
  have hlt : requestID < s.counterRequest := by
    by_contra hle
    exact hne (hs requestID (by omega))
  have hids : requestIDs (inner ++ [.decryptionFulfilled requestID (s.requestedHandles requestID)
      cleartexts decryptionProof]) = requestIDs inner := by
    simp [requestIDs]
  refine
    { le := hinner.le
      range := by rw [hids]; exact hinner.range
      nodup := by rw [hids]; exact hinner.nodup
      old := hinner.old
      stored := fun id saved ctsHandles hmem =>
        hinner.stored id saved ctsHandles (by simpa using hmem)
      checked := fun id handlesList cleartexts' proof hmem => ?_
      fresh := hinner.fresh }
  rcases List.mem_append.mp hmem with hmem | hmem
  · exact hinner.checked _ _ _ _ hmem
  · obtain ⟨rfl, rfl, -, -⟩ := by simpa using hmem
    exact ⟨hlt.trans_le hinner.le, hne, hinner.old _ hlt⟩

theorem served_runDapp (calls : Calls FHECall) (h : runDapp calls s = .ok (events, s'))
    (hs : Fresh s) (hdone : Undisturbed events) : Served s events s' := by
  refine Calls.exec_rel (R := fun s events s' => Fresh s → Undisturbed events → Served s events s')
    (fun s hs _ => .refl hs) (fun h₁ h₂ hs hdone => ?_) (fun hduring hcall hs hdone => ?_) calls h
    hs hdone
  · obtain ⟨hdone₁, hdone₂⟩ := undisturbed_append.mp hdone
    have hserved := h₁ hs hdone₁
    exact hserved.trans (h₂ hserved.fresh hdone₂)
  · obtain ⟨inner, s₁, hinner, hstep | ⟨rfl, hstep⟩⟩ := FHECall.run_cases hcall
    · obtain ⟨r, saved, rfl, -⟩ := id hstep
      exact hstep.served hdone (hduring hinner hs (undisturbed_append.mp hdone).1)
    · obtain ⟨_, _, _, -, rfl⟩ := id hstep
      exact hstep.served hs (hduring hinner hs (undisturbed_append.mp hdone).1)

end Runs

/-! ## Requests are served exactly if they are undisturbed -/

/-- All ids are distinct, the handles stored for an id are those of its request if it saves them,
and checks of its signatures succeed only for signatures over these handles. -/
structure RequestsServed (events : List RequestEvent) (s : DecryptionRequests) : Prop where
  distinct : (requestIDs events).Nodup
  stored : ∀ requestID saved ctsHandles, .returned requestID saved ctsHandles ∈ events →
    s.requestedHandles requestID = if saved = true then ctsHandles else []
  checked : ∀ requestID saved ctsHandles handlesList cleartexts decryptionProof,
    .returned requestID saved ctsHandles ∈ events →
    .decryptionFulfilled requestID handlesList cleartexts decryptionProof ∈ events →
      handlesList = ctsHandles
  signed : ∀ requestID saved ctsHandles verify cleartexts decryptionProof waiting r,
    .returned requestID saved ctsHandles ∈ events →
    checkSignatures verify requestID cleartexts decryptionProof waiting s = .ok r →
      verify ctsHandles cleartexts decryptionProof = true

/-- After every run of a deployed dapp, the requests are served exactly if in each call of the
oracle the counter was the same when it returned as when it was made. -/
theorem requestsServed_iff {calls : Calls FHECall} {events : List RequestEvent}
    {s : DecryptionRequests} (h : runDapp calls .init = .ok (events, s)) :
    RequestsServed events s ↔ Undisturbed events := by
  refine ⟨fun hserved => (counted_runDapp calls h).undisturbed hserved.distinct, fun hdone => ?_⟩
  have hserved := served_runDapp calls h (fun _ _ => rfl) hdone
  have hsaved : ∀ requestID saved ctsHandles, .returned requestID saved ctsHandles ∈ events →
      s.requestedHandles requestID ≠ [] → s.requestedHandles requestID = ctsHandles := by
    intro requestID saved ctsHandles hmem hne
    rw [hserved.stored _ _ _ hmem] at hne ⊢
    cases saved with
    | true => rfl
    | false => simp at hne
  refine
    { distinct := hserved.nodup
      stored := hserved.stored
      checked := fun requestID saved ctsHandles handlesList cleartexts proof hmem hcheck => ?_
      signed := fun requestID saved ctsHandles verify cleartexts proof waiting r hmem hcheck => ?_ }
  · obtain ⟨-, hne, hstored⟩ := hserved.checked _ _ _ _ hcheck
    rw [← hstored]
    exact hsaved _ _ _ hmem (hstored ▸ hne)
  · obtain ⟨_, _⟩ := r
    obtain ⟨hne, _, -, hverified, -⟩ := checkSignatures_eq_ok.mp hcheck
    rwa [hsaved _ _ _ hmem hne] at hverified

/-! ## Samples -/

/-- The oracle calls the dapp back while it serves a request, and the dapp makes another one. -/
def reenteredRequest : Calls FHECall :=
  .call (.requestDecryptionWithoutSavingHandles { ctsHandles := [1], callbackSelector := 0 })
    (.call (.requestDecryption { ctsHandles := [2], callbackSelector := 0 }) .done .done) .done

/-- Both requests return the id 0. -/
theorem reenteredRequest_not_served : ¬ ∀ calls events s,
    runDapp calls .init = .ok (events, s) → RequestsServed events s := by
  intro h
  exact absurd (h reenteredRequest _ _ rfl).distinct (by decide)

/-- One request after the other, and a check of the first. -/
def requestsInTurn : Calls FHECall :=
  .call (.requestDecryption { ctsHandles := [1], callbackSelector := 0 }) .done
    (.call (.requestDecryptionWithoutSavingHandles { ctsHandles := [2], callbackSelector := 0 })
      .done (.call (.checkSignatures (fun handles _ _ => handles = [1]) 0 [] []) .done .done))

def inTurnEvents : List RequestEvent :=
  [.oracleCalled 0 [1] 0 0 0, .returned 0 true [1], .oracleCalled 1 [2] 0 0 1,
    .returned 1 false [2], .decryptionFulfilled 0 [1] [] []]

theorem requestsInTurn_served : ∃ s, runDapp requestsInTurn .init = .ok (inTurnEvents, s) ∧
    RequestsServed inTurnEvents s := by
  have hdone : Undisturbed inTurnEvents := by
    unfold Undisturbed inTurnEvents
    grind
  obtain ⟨s, hrun⟩ : ∃ s, runDapp requestsInTurn .init = .ok (inTurnEvents, s) := ⟨_, rfl⟩
  exact ⟨s, hrun, (requestsServed_iff hrun).mpr hdone⟩

end Fhevm.LibrarySolidity
