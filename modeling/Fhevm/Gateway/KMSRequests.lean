import Fhevm.Gateway.KMSGeneration

/-!
# Requests of the KMS generation contract and their responses

What a committed call can do, said once for the requests and once for the three
responses, and which ids a run has issued.

## Main definitions

* `RequestKind` — the kinds of requests, with their counters.
* `afterResponse` — the storage after an accepted response of any kind.
* `Issued` — the id was issued by a request of the run.
* `responses_issued_iff` — responses only succeed for issued ids, and when not.
-/

namespace Fhevm.Gateway

open Foundation Contract

variable {E : Eip712} {msg : Msg} {c : KMSGenerationCall} {s s' : KMSGenerationStorage}
  {ev : List KMSGenerationEvent}

/-! ## The kinds of requests -/

inductive RequestKind
  | prepKeygen
  | keygen
  | crsgen
  | keyReshare
deriving DecidableEq, Repr

/-- The value the counter of the kind starts from. No request has this id. -/
def RequestKind.base : RequestKind → Nat
  | .prepKeygen => PREP_KEYGEN_COUNTER_BASE
  | .keygen => KEY_COUNTER_BASE
  | .crsgen => CRS_COUNTER_BASE
  | .keyReshare => KEY_RESHARE_COUNTER_BASE

/-- The latest id of the kind. -/
def RequestKind.counter (s : KMSGenerationStorage) : RequestKind → Nat
  | .prepKeygen => s.prepKeygenCounter
  | .keygen => s.keyCounter
  | .crsgen => s.crsCounter
  | .keyReshare => s.keyReshareCounter

/-- The kind, the id and the signature of a response. -/
def KMSGenerationCall.response : KMSGenerationCall → Option (RequestKind × Nat × Bytes)
  | .prepKeygenResponse id signature => some (.prepKeygen, id, signature)
  | .keygenResponse id _ signature => some (.keygen, id, signature)
  | .crsgenResponse id _ signature => some (.crsgen, id, signature)
  | _ => none

/-- The call requests something under a new id of the kind. A key generation gets an id
for its preprocessing and one for the key. -/
def KMSGenerationCall.requests : KMSGenerationCall → RequestKind → Bool
  | .keygen _, .prepKeygen => true
  | .keygen _, .keygen => true
  | .crsgenRequest _ _, .crsgen => true
  | .keyReshareSameSet _, .keyReshare => true
  | _, _ => false

/-! ## What a committed call does -/

/-- The digest that the signature of a response has to sign. -/
def KMSGenerationCall.digest (E : Eip712) (s : KMSGenerationStorage) : KMSGenerationCall → Bytes32
  | .prepKeygenResponse id _ => E.hashTypedDataV4 (.prepKeygenVerification id)
  | .keygenResponse id digests _ =>
    E.hashTypedDataV4 (.keygenVerification (s.keygenIdPairs id) id digests)
  | .crsgenResponse id crsDigest _ =>
    E.hashTypedDataV4 (.crsgenVerification id (s.crsMaxBitLength id) crsDigest)
  | _ => 0

/-- The storage with the signer marked and the sender kept. -/
def KMSGenerationStorage.stored (s : KMSGenerationStorage) (requestId : Nat) (digest : Bytes32)
    (signer sender : Address) : KMSGenerationStorage :=
  { s with
    kmsHasSignedForResponse := Function.update s.kmsHasSignedForResponse requestId
      (Function.update (s.kmsHasSignedForResponse requestId) signer true)
    consensusTxSenderAddresses := Function.update s.consensusTxSenderAddresses requestId
      (Function.update (s.consensusTxSenderAddresses requestId) digest
        (s.consensusTxSenderAddresses requestId digest ++ [sender])) }

/-- What the kind of request does with the storage once it is done. -/
def KMSGenerationCall.activate (s : KMSGenerationStorage) : KMSGenerationCall → KMSGenerationStorage
  | .keygenResponse id keyDigests _ =>
    { s with
      keyDigests := Function.update s.keyDigests id (s.keyDigests id ++ keyDigests)
      activeKeyId := id }
  | .crsgenResponse id crsDigest _ =>
    { s with
      crsDigests := Function.update s.crsDigests id crsDigest
      activeCrsId := id }
  | _ => s

/-- The storage after an accepted response. -/
def afterResponse (E : Eip712) (msg : Msg) (c : KMSGenerationCall) (id : Nat) (signer : Address)
    (s : KMSGenerationStorage) : KMSGenerationStorage :=
  let stored := s.stored id (c.digest E s) signer msg.sender
  if reachesConsensus msg id (c.digest E s) stored then
    c.activate (setRequestDone id (c.digest E s) stored)
  else stored

/-- The checks that a response passes besides the one on its id. -/
def SignedByNode (E : Eip712) (msg : Msg) (c : KMSGenerationCall) (id : Nat) (signature : Bytes)
    (s : KMSGenerationStorage) (signer : Address) : Prop :=
  msg.config.isKmsTxSender msg.sender = true ∧
    validateEIP712Signature E msg (c.digest E s) signature = .ok signer ∧
      s.kmsHasSignedForResponse id signer = false

theorem storeResponse_eq_ok {requestId : Nat} {digest : Bytes32} {signature : Bytes}
    {alreadySigned : Nat → Address → KMSGenerationError} :
    storeResponse E msg requestId digest signature alreadySigned s = .ok s' ↔
      ∃ signer, validateEIP712Signature E msg digest signature = .ok signer ∧
        s.kmsHasSignedForResponse requestId signer = false ∧
          s' = s.stored requestId digest signer msg.sender := by
  simp only [storeResponse, bind_eq_ok, require_eq_ok, pure_eq_ok, exists_and_left,
    exists_const, KMSGenerationStorage.stored]
  grind

theorem respond_eq_ok {requestId counter : Nat} {notRequested : Nat → KMSGenerationError}
    {digest : Bytes32} {signature : Bytes} {alreadySigned : Nat → Address → KMSGenerationError}
    {response : KMSGenerationEvent}
    {activate : KMSGenerationStorage → List KMSGenerationEvent × KMSGenerationStorage} :
    (∃ ev, respond E msg requestId counter notRequested digest signature alreadySigned response
        activate s = .ok (ev, s')) ↔
      (requestId ≠ 0 ∧ requestId ≤ counter) ∧ ∃ signer,
        (msg.config.isKmsTxSender msg.sender = true ∧
          validateEIP712Signature E msg digest signature = .ok signer ∧
            s.kmsHasSignedForResponse requestId signer = false) ∧
        s' = if reachesConsensus msg requestId digest (s.stored requestId digest signer msg.sender)
          then (activate (setRequestDone requestId digest
            (s.stored requestId digest signer msg.sender))).2
          else s.stored requestId digest signer msg.sender := by
  simp only [respond, onlyKmsTxSender, bind_eq_ok, require_eq_ok, storeResponse_eq_ok, exists_const]
  constructor
  · rintro ⟨ev, hsender, hid, r, ⟨signer, hv, hs, rfl⟩, hr⟩
    refine ⟨by omega, signer, ⟨hsender, hv, hs⟩, ?_⟩
    split_ifs at hr ⊢ with hcons
    · cases hr
      rfl
    · cases hr
      rfl
  · rintro ⟨hid, signer, ⟨hsender, hv, hs⟩, rfl⟩
    by_cases hcons : reachesConsensus msg requestId digest
        (s.stored requestId digest signer msg.sender)
    · exact ⟨_, hsender, by omega, _, ⟨signer, hv, hs, rfl⟩, by simp only [hcons]; rfl⟩
    · exact ⟨_, hsender, by omega, _, ⟨signer, hv, hs, rfl⟩, by simp only [hcons]; rfl⟩

/-- A response succeeds where its id is in range and a KMS node that has not signed for
the id signs it. -/
theorem response_eq_ok {kind : RequestKind} {id : Nat} {signature : Bytes}
    (hc : c.response = some (kind, id, signature)) :
    (∃ ev, (kmsGeneration E).call (msg, c) s = .ok (ev, s')) ↔
      (id ≠ 0 ∧ id ≤ kind.counter s) ∧ ∃ signer, SignedByNode E msg c id signature s signer ∧
        s' = afterResponse E msg c id signer s := by
  cases c <;> cases hc
  all_goals
    simp only [kmsGeneration, prepKeygenResponse, keygenResponse, crsgenResponse]
    rw [respond_eq_ok]
    rfl

/-- Everything that a committed call can do. -/
inductive Committed (E : Eip712) (msg : Msg) (s : KMSGenerationStorage) :
    KMSGenerationCall → KMSGenerationStorage → Prop
  | keygen (paramsType : ParamsType)
      (previous : s.keyCounter = KEY_COUNTER_BASE ∨ s.isRequestDone s.keyCounter = true)
      (width : s.prepKeygenCounter + 1 < 2 ^ 256 ∧ s.keyCounter + 1 < 2 ^ 256) :
      Committed E msg s (.keygen paramsType)
        { s with
          prepKeygenCounter := s.prepKeygenCounter + 1
          keyCounter := s.keyCounter + 1
          keygenIdPairs := Function.update
            (Function.update s.keygenIdPairs (s.prepKeygenCounter + 1) (s.keyCounter + 1))
            (s.keyCounter + 1) (s.prepKeygenCounter + 1)
          requestParamsType :=
            Function.update s.requestParamsType (s.prepKeygenCounter + 1) paramsType }
  | crsgenRequest (maxBitLength : Nat) (paramsType : ParamsType)
      (previous : s.crsCounter = CRS_COUNTER_BASE ∨ s.isRequestDone s.crsCounter = true) :
      Committed E msg s (.crsgenRequest maxBitLength paramsType)
        { s with
          crsCounter := s.crsCounter + 1
          crsMaxBitLength := Function.update s.crsMaxBitLength (s.crsCounter + 1) maxBitLength
          requestParamsType := Function.update s.requestParamsType (s.crsCounter + 1) paramsType }
  | response (c : KMSGenerationCall) (kind : RequestKind) (id : Nat) (signature : Bytes)
      (signer : Address) (isResponse : c.response = some (kind, id, signature))
      (inRange : id ≠ 0 ∧ id ≤ kind.counter s) (signed : SignedByNode E msg c id signature s signer) :
      Committed E msg s c (afterResponse E msg c id signer s)
  | prssInit : Committed E msg s .prssInit s
  | keyReshareSameSet (keyId : Nat) (done : s.isRequestDone keyId = true) :
      Committed E msg s (.keyReshareSameSet keyId)
        { s with keyReshareCounter := s.keyReshareCounter + 1 }

theorem committed_of_ok (h : (kmsGeneration E).call (msg, c) s = .ok (ev, s')) :
    Committed E msg s c s' := by
  cases c with
  | keygen paramsType =>
    simp only [kmsGeneration, keygen, bind_eq_ok, require_eq_ok, increment_eq_ok] at h
    obtain ⟨-, -, -, hprev, _, ⟨hw, rfl⟩, _, ⟨hw', rfl⟩, h⟩ := h
    cases h
    exact .keygen paramsType hprev ⟨hw, hw'⟩
  | crsgenRequest maxBitLength paramsType =>
    simp only [kmsGeneration, crsgenRequest, bind_eq_ok, require_eq_ok, increment_eq_ok] at h
    obtain ⟨-, -, -, hprev, _, ⟨-, rfl⟩, h⟩ := h
    cases h
    exact .crsgenRequest maxBitLength paramsType hprev
  | prssInit =>
    simp only [kmsGeneration, prssInit, bind_eq_ok] at h
    obtain ⟨-, -, h⟩ := h
    cases h
    exact .prssInit
  | keyReshareSameSet keyId =>
    simp only [kmsGeneration, keyReshareSameSet, bind_eq_ok, require_eq_ok, increment_eq_ok] at h
    obtain ⟨-, -, -, hdone, _, ⟨-, rfl⟩, h⟩ := h
    cases h
    exact .keyReshareSameSet keyId hdone
  | prepKeygenResponse id signature =>
    obtain ⟨hid, signer, hsigned, rfl⟩ := (response_eq_ok rfl).mp ⟨ev, h⟩
    exact .response _ .prepKeygen id signature signer rfl hid hsigned
  | keygenResponse id digests signature =>
    obtain ⟨hid, signer, hsigned, rfl⟩ := (response_eq_ok rfl).mp ⟨ev, h⟩
    exact .response _ .keygen id signature signer rfl hid hsigned
  | crsgenResponse id crsDigest signature =>
    obtain ⟨hid, signer, hsigned, rfl⟩ := (response_eq_ok rfl).mp ⟨ev, h⟩
    exact .response _ .crsgen id signature signer rfl hid hsigned

/-! ## Issued ids -/

theorem kmsAfter_cons {i : Msg × KMSGenerationCall} {past : List (Msg × KMSGenerationCall)} :
    kmsAfter E (i :: past) = (kmsGeneration E).step i (kmsAfter E past) := rfl

@[simp] theorem counter_activate (kind : RequestKind) :
    kind.counter (c.activate s) = kind.counter s := by
  cases c <;> cases kind <;> rfl

@[simp] theorem counter_afterResponse (kind : RequestKind) {id : Nat} {signer : Address} :
    kind.counter (afterResponse E msg c id signer s) = kind.counter s := by
  unfold afterResponse
  dsimp only
  split_ifs
  · rw [counter_activate]
    cases kind <;> rfl
  · cases kind <;> rfl

theorem requests_of_response {kind kind' : RequestKind} {id : Nat} {signature : Bytes}
    (hc : c.response = some (kind, id, signature)) : c.requests kind' = false := by
  cases c <;> cases hc <;> rfl

/-- The counter of a kind counts the requests of the kind. -/
theorem counter_of_ok (kind : RequestKind) (h : (kmsGeneration E).call (msg, c) s = .ok (ev, s')) :
    kind.counter s' = if c.requests kind then kind.counter s + 1 else kind.counter s := by
  cases committed_of_ok h with
  | keygen => cases kind <;> rfl
  | crsgenRequest => cases kind <;> rfl
  | response c kind' id signature signer hc => simp [requests_of_response hc]
  | prssInit => cases kind <;> rfl
  | keyReshareSameSet => cases kind <;> rfl

/-- A request of the run got this id. -/
def Issued (E : Eip712) (calls : List (Msg × KMSGenerationCall)) (kind : RequestKind) (id : Nat) :
    Prop :=
  ∃ i past ev s', Ran calls i past ∧ i.2.requests kind = true ∧
    (kmsGeneration E).call i (kmsAfter E past) = .ok (ev, s') ∧ kind.counter s' = id

theorem base_le_counter (kind : RequestKind) (calls : List (Msg × KMSGenerationCall)) :
    kind.base ≤ kind.counter (kmsAfter E calls) := by
  refine exec_invariant (P := fun s => kind.base ≤ kind.counter s) ?_ ?_ calls
  · cases kind <;> exact le_rfl
  intro i s ev s' hs h
  rw [counter_of_ok kind h]
  grind

theorem issued_cons {i : Msg × KMSGenerationCall} {calls : List (Msg × KMSGenerationCall)}
    {kind : RequestKind} {id : Nat} :
    Issued E (i :: calls) kind id ↔ Issued E calls kind id ∨
      (i.2.requests kind = true ∧ ∃ ev s', (kmsGeneration E).call i (kmsAfter E calls) =
        .ok (ev, s') ∧ kind.counter s' = id) := by
  simp only [Issued, ran_cons]
  grind

/-- The ids issued so far are those above the base, up to the counter. -/
theorem issued_iff {calls : List (Msg × KMSGenerationCall)} {kind : RequestKind} {id : Nat} :
    Issued E calls kind id ↔ kind.base < id ∧ id ≤ kind.counter (kmsAfter E calls) := by
  induction calls with
  | nil =>
    have hbase : kind.counter initializeFromEmptyProxy = kind.base := by cases kind <;> rfl
    simp [Issued, hbase]
  | cons i past ih =>
    have hbase := base_le_counter (E := E) kind past
    rw [issued_cons, ih, kmsAfter_cons]
    obtain ⟨e, he, hs⟩ | ⟨ev, ho⟩ := step_cases i (kmsAfter E past) (C := kmsGeneration E)
    · rw [hs]
      simp [he]
    · have hcount := counter_of_ok kind ho
      have hnew : (∃ ev s', (kmsGeneration E).call i (kmsAfter E past) = .ok (ev, s') ∧
          kind.counter s' = id) ↔
            kind.counter ((kmsGeneration E).step i (kmsAfter E past)) = id := by
        simp [ho]
      rw [hnew, hcount]
      split_ifs with hreq
      · simp only [hreq, true_and]
        omega
      · simp [hreq]

/-! ## Responses to issued ids -/

/-- A response whose id was not issued by a request of its kind reverts. -/
def RespondsToIssued (E : Eip712) (i : Msg × KMSGenerationCall)
    (past : List (Msg × KMSGenerationCall)) : Prop :=
  ∀ kind id signature, i.2.response = some (kind, id, signature) → ¬ Issued E past kind id →
    (∃ e, (kmsGeneration E).call i (kmsAfter E past) = .error e) ∧
      kmsAfter E (i :: past) = kmsAfter E past

/-- No KMS node signs a response for an id below the ids of its kind. -/
def SignsAboveBase (E : Eip712) (i : Msg × KMSGenerationCall)
    (past : List (Msg × KMSGenerationCall)) : Prop :=
  ∀ kind id signature, i.2.response = some (kind, id, signature) →
    (∃ signer, SignedByNode E i.1 i.2 id signature (kmsAfter E past) signer) →
      id = 0 ∨ kind.base < id

theorem respondsToIssued_iff {i : Msg × KMSGenerationCall}
    {past : List (Msg × KMSGenerationCall)} :
    RespondsToIssued E i past ↔ SignsAboveBase E i past := by
  obtain ⟨msg, c⟩ := i
  constructor
  · intro h kind id signature hc hsigned
    by_contra hlow
    have hissued : ¬ Issued E past kind id := by
      rw [issued_iff]
      omega
    obtain ⟨⟨e, he⟩, -⟩ := h kind id signature hc hissued
    obtain ⟨signer, hs⟩ := hsigned
    have hrange : id ≠ 0 ∧ id ≤ kind.counter (kmsAfter E past) := by
      have := base_le_counter (E := E) kind past
      omega
    obtain ⟨ev, hok⟩ := (response_eq_ok hc).mpr ⟨hrange, signer, hs, rfl⟩
    rw [he] at hok
    cases hok
  · intro h kind id signature hc hissued
    have herror : ∃ e, (kmsGeneration E).call (msg, c) (kmsAfter E past) = .error e := by
      rw [exists_error_iff]
      rintro ⟨ev, s'⟩ hok
      obtain ⟨hrange, signer, hs, -⟩ := (response_eq_ok hc).mp ⟨ev, hok⟩
      apply hissued
      rw [issued_iff]
      have := h kind id signature hc ⟨signer, hs⟩
      omega
    obtain ⟨e, he⟩ := herror
    exact ⟨⟨e, he⟩, step_of_error he⟩

/-- In a run, responses for ids that were not issued for their kind all revert exactly
when no node signs one with an id up to the base of the kind's counter. The check on the
id only rules out `0` and what is above the counter. -/
theorem responses_issued_iff (E : Eip712) (calls : List (Msg × KMSGenerationCall)) :
    (∀ i past, Ran calls i past → RespondsToIssued E i past) ↔
      ∀ i past, Ran calls i past → SignsAboveBase E i past :=
  forall_ran_iff (fun _ _ => respondsToIssued_iff) calls

/-- A setting with one KMS node, whose signatures are all accepted. -/
def oneNode : Eip712 where
  hashTypedDataV4 _ := 0
  recover _ _ := some 1

/-- The owner is account `0`, the node sends from account `1`. -/
def oneNodeConfig : GatewayConfig where
  owner := 0
  isKmsTxSender a := decide (a = 1)
  isKmsSigner a := decide (a = 1)
  getKmsNode _ := ⟨1, ""⟩
  getKmsGenThreshold := 1

/-- A key is requested, and the node answers the key id by a CRS. -/
def crsForKeyId : List (Msg × KMSGenerationCall) :=
  [(⟨1, oneNodeConfig⟩, .crsgenResponse (KEY_COUNTER_BASE + 1) [] []),
    (⟨0, oneNodeConfig⟩, .keygen .default)]

/-- The answer is taken: the key id becomes the active CRS and the request counts as done. -/
theorem crsForKeyId_accepted :
    (¬ ∀ i past, Ran crsForKeyId i past → RespondsToIssued oneNode i past) ∧
      (kmsAfter oneNode crsForKeyId).activeCrsId = KEY_COUNTER_BASE + 1 ∧
        (kmsAfter oneNode crsForKeyId).isRequestDone (KEY_COUNTER_BASE + 1) = true := by
  have hactive : (kmsAfter oneNode crsForKeyId).activeCrsId = KEY_COUNTER_BASE + 1 := by
    decide +kernel
  refine ⟨fun h => ?_, hactive, by decide +kernel⟩
  have hissued : ¬ Issued oneNode [(⟨0, oneNodeConfig⟩, .keygen .default)] .crsgen
      (KEY_COUNTER_BASE + 1) := by
    rw [issued_iff]
    decide +kernel
  have hsame := (h _ _ (Ran.head _ _) .crsgen _ [] rfl hissued).2
  rw [← crsForKeyId] at hsame
  rw [hsame] at hactive
  exact absurd hactive (by decide +kernel)

end Fhevm.Gateway
