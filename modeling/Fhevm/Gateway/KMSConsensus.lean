import Fhevm.Gateway.KMSRequests

/-!
# Consensus in the KMS generation contract

What is fixed when a request is done, how the ids of a key generation are paired,
and in which order the two consensus rounds of a key generation happen.

## Main definitions

* `Concludes` — a call of the run by which a request is done.
* `Consistent` — the joint invariant of a run.
* `consistent_of_few_requests` — it holds while the ids of a kind do not run over.
-/

namespace Fhevm.Gateway

open Foundation Contract

variable {E : Eip712} {msg : Msg} {c : KMSGenerationCall} {s s' : KMSGenerationStorage}
  {ev : List KMSGenerationEvent}

/-! ## The fields after a response -/

section AfterResponse

variable {id : Nat} {signer : Address}

@[simp] theorem keygenIdPairs_afterResponse :
    (afterResponse E msg c id signer s).keygenIdPairs = s.keygenIdPairs := by
  unfold afterResponse
  dsimp only
  split_ifs
  · cases c <;> rfl
  · rfl

/-- Nothing but the responses themselves changes for a request that is done. -/
theorem afterResponse_of_done (hdone : s.isRequestDone id = true) :
    afterResponse E msg c id signer s = s.stored id (c.digest E s) signer msg.sender := by
  have hnot : ¬ reachesConsensus msg id (c.digest E s)
      (s.stored id (c.digest E s) signer msg.sender) = true := by
    simp [reachesConsensus, KMSGenerationStorage.stored, hdone]
  exact if_neg hnot

@[simp] theorem kmsHasSigned_afterResponse :
    (afterResponse E msg c id signer s).kmsHasSignedForResponse =
      Function.update s.kmsHasSignedForResponse id
        (Function.update (s.kmsHasSignedForResponse id) signer true) := by
  unfold afterResponse
  dsimp only
  split_ifs
  · cases c <;> rfl
  · rfl

theorem isRequestDone_afterResponse :
    (afterResponse E msg c id signer s).isRequestDone =
      if reachesConsensus msg id (c.digest E s) (s.stored id (c.digest E s) signer msg.sender)
      then Function.update s.isRequestDone id true else s.isRequestDone := by
  unfold afterResponse
  dsimp only
  split_ifs
  · cases c <;> rfl
  · rfl

/-- A response changes nothing of what is kept of another request. -/
theorem afterResponse_of_ne (E : Eip712) (msg : Msg) (s : KMSGenerationStorage) (signer : Address)
    {kind : RequestKind} {signature : Bytes} {id' : Nat} (hne : id' ≠ id)
    (hc : c.response = some (kind, id, signature)) :
    (afterResponse E msg c id signer s).isRequestDone id' = s.isRequestDone id' ∧
      (afterResponse E msg c id signer s).consensusDigest id' = s.consensusDigest id' ∧
        (afterResponse E msg c id signer s).keyDigests id' = s.keyDigests id' ∧
          (afterResponse E msg c id signer s).crsDigests id' = s.crsDigests id' ∧
            (afterResponse E msg c id signer s).consensusTxSenderAddresses id' =
              s.consensusTxSenderAddresses id' := by
  unfold afterResponse
  dsimp only
  split_ifs
  · cases c <;> cases hc <;>
      simp [KMSGenerationCall.activate, setRequestDone, KMSGenerationStorage.stored, hne]
  · simp [KMSGenerationStorage.stored, hne]

end AfterResponse

/-! ## What is kept of a request that is done -/

/-- The senders of the responses to `id` with this digest that the call commits. -/
def respondents (E : Eip712) (i : Msg × KMSGenerationCall) (s : KMSGenerationStorage) (id : Nat)
    (digest : Bytes32) : List Address :=
  match i.2.response with
  | some (_, id', _) => if id' = id ∧ i.2.digest E s = digest then [i.1.sender] else []
  | none => []

/-- Once a request is done, a call can only append its sender to those of the digest. -/
theorem done_step {id : Nat} (hdone : s.isRequestDone id = true)
    (h : (kmsGeneration E).call (msg, c) s = .ok (ev, s')) :
    s'.isRequestDone id = true ∧ s'.consensusDigest id = s.consensusDigest id ∧
      s'.keyDigests id = s.keyDigests id ∧ s'.crsDigests id = s.crsDigests id ∧
        getConsensusTxSenders s' id = getConsensusTxSenders s id ++
          respondents E (msg, c) s id (s.consensusDigest id) := by
  cases committed_of_ok h with
  | keygen => simp [hdone, getConsensusTxSenders, respondents, KMSGenerationCall.response]
  | crsgenRequest => simp [hdone, getConsensusTxSenders, respondents, KMSGenerationCall.response]
  | prssInit => simp [hdone, respondents, KMSGenerationCall.response]
  | keyReshareSameSet =>
    simp [hdone, getConsensusTxSenders, respondents, KMSGenerationCall.response]
  | response c kind id' signature signer hc =>
    by_cases hid : id = id'
    · subst hid
      rw [afterResponse_of_done hdone]
      by_cases hdigest : c.digest E s = s.consensusDigest id
      · simp [KMSGenerationStorage.stored, getConsensusTxSenders, respondents, hc, hdone, hdigest]
      · simp [KMSGenerationStorage.stored, getConsensusTxSenders, respondents, hc, hdone, hdigest,
          Ne.symm hdigest]
    · obtain ⟨h₁, h₂, h₃, h₄, h₅⟩ := afterResponse_of_ne E msg s signer hid hc
      simp [h₁, h₂, h₃, h₄, h₅, hdone, getConsensusTxSenders, respondents, hc, Ne.symm hid]

/-- What is kept of the request between two times of a run: everything, and the senders
grow by those who respond later with the digest on which consensus was reached. -/
structure KeptSince (E : Eip712) (past calls : List (Msg × KMSGenerationCall)) (id : Nat) :
    Prop where
  done : (kmsAfter E calls).isRequestDone id = true
  digest : (kmsAfter E calls).consensusDigest id = (kmsAfter E past).consensusDigest id
  keyDigests : (kmsAfter E calls).keyDigests id = (kmsAfter E past).keyDigests id
  crsDigests : (kmsAfter E calls).crsDigests id = (kmsAfter E past).crsDigests id
  senders : ∃ late, getConsensusTxSenders (kmsAfter E calls) id =
      getConsensusTxSenders (kmsAfter E past) id ++ late ∧
    ∀ a ∈ late, ∃ i before, Ran calls i before ∧ past <:+ before ∧
      (∃ ev s', (kmsGeneration E).call i (kmsAfter E before) = .ok (ev, s')) ∧
        a ∈ respondents E i (kmsAfter E before) id ((kmsAfter E past).consensusDigest id)

theorem keptSince {id : Nat} {past calls : List (Msg × KMSGenerationCall)} (h : past <:+ calls)
    (hdone : (kmsAfter E past).isRequestDone id = true) : KeptSince E past calls id := by
  obtain ⟨later, rfl⟩ := h
  induction later with
  | nil => exact ⟨hdone, rfl, rfl, rfl, [], by simp, by simp⟩
  | cons i later ih =>
    obtain ⟨late, hlate, hfrom⟩ := ih.senders
    obtain ⟨e, -, hs⟩ | ⟨ev, ho⟩ := step_cases i (kmsAfter E (later ++ past)) (C := kmsGeneration E)
    · have hsame : kmsAfter E (i :: later ++ past) = kmsAfter E (later ++ past) := hs
      rw [← hsame] at hlate
      refine ⟨hsame ▸ ih.done, hsame ▸ ih.digest, hsame ▸ ih.keyDigests, hsame ▸ ih.crsDigests,
        late, hlate, ?_⟩
      intro a ha
      obtain ⟨j, before, hran, hrest⟩ := hfrom a ha
      exact ⟨j, before, hran.tail, hrest⟩
    · obtain ⟨h₁, h₂, h₃, h₄, h₅⟩ := done_step ih.done ho
      refine ⟨h₁, h₂.trans ih.digest, h₃.trans ih.keyDigests, h₄.trans ih.crsDigests,
        late ++ respondents E i (kmsAfter E (later ++ past)) id
          ((kmsAfter E past).consensusDigest id), ?_, ?_⟩
      · rw [ih.digest, hlate, List.append_assoc] at h₅
        exact h₅
      · intro a ha
        rcases List.mem_append.mp ha with ha | ha
        · obtain ⟨j, before, hran, hrest⟩ := hfrom a ha
          exact ⟨j, before, hran.tail, hrest⟩
        · exact ⟨i, later ++ past, Ran.head _ _, List.suffix_append _ _, ⟨ev, _, ho⟩, ha⟩

/-- The call by which a request gets done. -/
def Concludes (E : Eip712) (id : Nat) (i : Msg × KMSGenerationCall)
    (past : List (Msg × KMSGenerationCall)) : Prop :=
  (kmsAfter E past).isRequestDone id = false ∧ (kmsAfter E (i :: past)).isRequestDone id = true

theorem concludes_once {id : Nat} {calls past past' : List (Msg × KMSGenerationCall)}
    {i i' : Msg × KMSGenerationCall} (hran : Ran calls i past) (hran' : Ran calls i' past')
    (h : Concludes E id i past) (h' : Concludes E id i' past') : i = i' ∧ past = past' := by
  -- of two different calls one is made after the request is done by the other
  have hlater : ∀ {j j' before before'}, (j :: before) <:+ (j' :: before') →
      Concludes E id j before → Concludes E id j' before' → j = j' ∧ before = before' := by
    intro j j' before before' hsuffix hc hc'
    rcases List.suffix_cons_iff.mp hsuffix with heq | hsuffix
    · simpa using heq
    · have := (keptSince hsuffix hc.2).done
      simp [hc'.1] at this
  rcases List.suffix_or_suffix_of_suffix hran hran' with hsuffix | hsuffix
  · exact hlater hsuffix h h'
  · have := hlater hsuffix h' h
    exact ⟨this.1.symm, this.2.symm⟩

/-! ## The ids of a key generation -/

/-- The two counters move together, the ids are paired in the order they are issued, and
all keys but the latest are done. The pair of a key id is that of its own preprocessing
as long as it is the latest or the ids of preprocessings do not reach it. -/
structure Paired (s : KMSGenerationStorage) (n : Nat) : Prop where
  prepKeygenCounter : s.prepKeygenCounter = PREP_KEYGEN_COUNTER_BASE + n
  keyCounter : s.keyCounter = KEY_COUNTER_BASE + n
  low : ∀ id ≤ PREP_KEYGEN_COUNTER_BASE, s.keygenIdPairs id = 0
  prep : ∀ j, 0 < j → j ≤ n → s.keygenIdPairs (PREP_KEYGEN_COUNTER_BASE + j) = KEY_COUNTER_BASE + j
  key : ∀ j, 0 < j → j ≤ n → j = n ∨ n ≤ 2 ^ 248 →
    s.keygenIdPairs (KEY_COUNTER_BASE + j) = PREP_KEYGEN_COUNTER_BASE + j
  done : ∀ j, 0 < j → j < n → s.isRequestDone (KEY_COUNTER_BASE + j) = true

theorem base_values : PREP_KEYGEN_COUNTER_BASE = 3 * 2 ^ 248 ∧ KEY_COUNTER_BASE = 4 * 2 ^ 248 ∧
    CRS_COUNTER_BASE = 5 * 2 ^ 248 ∧ KEY_RESHARE_COUNTER_BASE = 6 * 2 ^ 248 := by
  decide +kernel

/-- A flag that is set stays so. -/
theorem isRequestDone_of_ok {id : Nat} (hdone : s.isRequestDone id = true)
    (h : (kmsGeneration E).call (msg, c) s = .ok (ev, s')) : s'.isRequestDone id = true :=
  (done_step hdone h).1

theorem paired_step {n : Nat} (hs : Paired s n)
    (h : (kmsGeneration E).call (msg, c) s = .ok (ev, s')) : ∃ m, n ≤ m ∧ Paired s' m := by
  obtain ⟨hP, hK, -, -⟩ := base_values
  have hkeep : s'.prepKeygenCounter = s.prepKeygenCounter → s'.keyCounter = s.keyCounter →
      s'.keygenIdPairs = s.keygenIdPairs → Paired s' n := by
    intro h₁ h₂ h₃
    refine ⟨h₁ ▸ hs.prepKeygenCounter, h₂ ▸ hs.keyCounter, h₃ ▸ hs.low, h₃ ▸ hs.prep, h₃ ▸ hs.key,
      fun j hj hjn => isRequestDone_of_ok (hs.done j hj hjn) h⟩
  cases committed_of_ok h with
  | crsgenRequest => exact ⟨n, le_rfl, hkeep rfl rfl rfl⟩
  | prssInit => exact ⟨n, le_rfl, hs⟩
  | keyReshareSameSet => exact ⟨n, le_rfl, hkeep rfl rfl rfl⟩
  | response c kind id signature signer hc =>
    exact ⟨n, le_rfl, hkeep (counter_afterResponse .prepKeygen) (counter_afterResponse .keygen)
      keygenIdPairs_afterResponse⟩
  | keygen paramsType hprev =>
    have hc := hs.prepKeygenCounter
    have hk := hs.keyCounter
    refine ⟨n + 1, by omega, ⟨?_, ?_, ?_, ?_, ?_, ?_⟩⟩
    all_goals simp only [hc, hk, Function.update_apply]
    · omega
    · omega
    · intro id hid
      have := hs.low id hid
      split_ifs <;> omega
    · intro j hj hjn
      by_cases hlast : j = n + 1
      · split_ifs <;> omega
      · have := hs.prep j hj (by omega)
        split_ifs <;> omega
    · intro j hj hjn hlate
      by_cases hlast : j = n + 1
      · split_ifs <;> omega
      · have := hs.key j hj (by omega) (by omega)
        split_ifs <;> omega
    · intro j hj hjn
      by_cases hlast : j = n
      · subst hlast
        rw [← hk]
        exact hprev.resolve_left (by omega)
      · exact hs.done j hj (by omega)

theorem exists_paired (calls : List (Msg × KMSGenerationCall)) :
    ∃ n, Paired (kmsAfter E calls) n := by
  refine exec_invariant (P := fun s => ∃ n, Paired s n) ?_ ?_ calls
  · exact ⟨0, rfl, rfl, fun _ _ => rfl, by omega, by omega, by omega⟩
  · rintro ⟨msg, c⟩ s ev s' ⟨n, hn⟩ h
    obtain ⟨m, -, hm⟩ := paired_step hn h
    exact ⟨m, hm⟩

/-! ## The joint invariant -/

/-- What holds of the requests of a run. -/
structure Consistent (E : Eip712) (calls : List (Msg × KMSGenerationCall)) : Prop where
  keysDone : ∀ id, Issued E calls .keygen id → id ≠ (kmsAfter E calls).keyCounter →
    (kmsAfter E calls).isRequestDone id = true
  pairs : Set.BijOn (kmsAfter E calls).keygenIdPairs {id | Issued E calls .prepKeygen id}
    {id | Issued E calls .keygen id}
  pairsBack : Set.InvOn (kmsAfter E calls).keygenIdPairs (kmsAfter E calls).keygenIdPairs
    {id | Issued E calls .prepKeygen id} {id | Issued E calls .keygen id}
  kinds : ∀ kind kind' id, Issued E calls kind id → Issued E calls kind' id → kind = kind'
  once : ∀ id i i' past past', Ran calls i past → Ran calls i' past' →
    Concludes E id i past → Concludes E id i' past' → i = i' ∧ past = past'
  kept : ∀ past id, past <:+ calls → (kmsAfter E past).isRequestDone id = true →
    KeptSince E past calls id

/-- The 31 bytes that count the requests of a kind do not run over. -/
def CountsFit (E : Eip712) (calls : List (Msg × KMSGenerationCall)) : Prop :=
  ∀ kind : RequestKind, kind.counter (kmsAfter E calls) ≤ kind.base + 2 ^ 248

theorem issued_prepKeygen_iff {calls : List (Msg × KMSGenerationCall)} {n id : Nat}
    (h : Paired (kmsAfter E calls) n) :
    Issued E calls .prepKeygen id ↔
      ∃ j, 0 < j ∧ j ≤ n ∧ id = PREP_KEYGEN_COUNTER_BASE + j := by
  have hc := h.prepKeygenCounter
  rw [issued_iff]
  simp only [RequestKind.base, RequestKind.counter, hc]
  constructor
  · intro hid
    exact ⟨id - PREP_KEYGEN_COUNTER_BASE, by omega, by omega, by omega⟩
  · rintro ⟨j, hj, hjn, rfl⟩
    omega

theorem issued_keygen_iff {calls : List (Msg × KMSGenerationCall)} {n id : Nat}
    (h : Paired (kmsAfter E calls) n) :
    Issued E calls .keygen id ↔ ∃ j, 0 < j ∧ j ≤ n ∧ id = KEY_COUNTER_BASE + j := by
  have hk := h.keyCounter
  rw [issued_iff]
  simp only [RequestKind.base, RequestKind.counter, hk]
  constructor
  · intro hid
    exact ⟨id - KEY_COUNTER_BASE, by omega, by omega, by omega⟩
  · rintro ⟨j, hj, hjn, rfl⟩
    omega

theorem kinds_differ {calls : List (Msg × KMSGenerationCall)} (hfit : CountsFit E calls)
    {kind kind' : RequestKind} {id : Nat} (h : Issued E calls kind id)
    (h' : Issued E calls kind' id) : kind = kind' := by
  obtain ⟨hP, hK, hC, hR⟩ := base_values
  rw [issued_iff] at h h'
  have hmax := hfit kind
  have hmax' := hfit kind'
  cases kind <;> cases kind' <;>
    first
      | rfl
      | (simp only [RequestKind.base] at h h' hmax hmax'
         omega)

/-- Every key but the latest is done, preprocessings and keys are paired one to one, ids
of different kinds differ, and a request is done once and then kept, in every run that
makes at most `2 ^ 248` requests of each kind. -/
theorem consistent_of_countsFit (E : Eip712) (calls : List (Msg × KMSGenerationCall))
    (hfit : CountsFit E calls) : Consistent E calls := by
  obtain ⟨n, hn⟩ := exists_paired (E := E) calls
  have hnfit : n ≤ 2 ^ 248 := by
    have hk := hn.keyCounter
    have hmax := hfit .keygen
    simp only [RequestKind.base, RequestKind.counter] at hmax
    omega
  have hback : Set.InvOn (kmsAfter E calls).keygenIdPairs (kmsAfter E calls).keygenIdPairs
      {id | Issued E calls .prepKeygen id} {id | Issued E calls .keygen id} := by
    constructor
    · intro id hid
      obtain ⟨j, hj, hjn, rfl⟩ := (issued_prepKeygen_iff hn).mp hid
      rw [hn.prep j hj hjn, hn.key j hj hjn (.inr hnfit)]
    · intro id hid
      obtain ⟨j, hj, hjn, rfl⟩ := (issued_keygen_iff hn).mp hid
      rw [hn.key j hj hjn (.inr hnfit), hn.prep j hj hjn]
  refine ⟨?_, hback.bijOn ?_ ?_, hback, fun _ _ _ => kinds_differ hfit,
    fun _ _ _ _ _ hran hran' => concludes_once hran hran', fun _ _ => keptSince⟩
  · intro id hid hlatest
    obtain ⟨j, hj, hjn, rfl⟩ := (issued_keygen_iff hn).mp hid
    apply hn.done j hj
    have hk := hn.keyCounter
    omega
  · intro id hid
    obtain ⟨j, hj, hjn, rfl⟩ := (issued_prepKeygen_iff hn).mp hid
    exact (issued_keygen_iff hn).mpr ⟨j, hj, hjn, hn.prep j hj hjn⟩
  · intro id hid
    obtain ⟨j, hj, hjn, rfl⟩ := (issued_keygen_iff hn).mp hid
    exact (issued_prepKeygen_iff hn).mpr ⟨j, hj, hjn, hn.key j hj hjn (.inr hnfit)⟩

/-- The invariant of a run with a CRS answer to a key id. -/
theorem consistent_crsForKeyId : Consistent oneNode crsForKeyId :=
  consistent_of_countsFit oneNode crsForKeyId (by
    intro kind
    cases kind <;> decide +kernel)

/-- Key generations one after the other, each answered by the one node. -/
def keygenRounds : Nat → List (Msg × KMSGenerationCall)
  | 0 => []
  | n + 1 =>
    (⟨1, oneNodeConfig⟩, .keygenResponse (KEY_COUNTER_BASE + (n + 1)) [] []) ::
      (⟨0, oneNodeConfig⟩, .keygen .default) :: keygenRounds n

/-- The responses of the run are for ids that some request of it was issued. -/
def OnlyIssuedIds (E : Eip712) (calls : List (Msg × KMSGenerationCall)) : Prop :=
  ∀ i past, Ran calls i past → ∀ kind id signature, i.2.response = some (kind, id, signature) →
    ∃ kind', Issued E past kind' id

/-- After `n` rounds both counters have moved by `n`, the latest key is done and nobody has
signed for a key to come. -/
structure AfterRounds (s : KMSGenerationStorage) (n : Nat) : Prop where
  prepKeygenCounter : s.prepKeygenCounter = PREP_KEYGEN_COUNTER_BASE + n
  keyCounter : s.keyCounter = KEY_COUNTER_BASE + n
  unsigned : ∀ j, n < j → s.kmsHasSignedForResponse (KEY_COUNTER_BASE + j) 1 = false
  latest : n = 0 ∨ s.isRequestDone (KEY_COUNTER_BASE + n) = true

/-- One response is enough for the one node. -/
theorem done_afterResponse_oneNode {id : Nat} {signer : Address} :
    (afterResponse oneNode ⟨1, oneNodeConfig⟩ c id signer s).isRequestDone id = true := by
  rw [isRequestDone_afterResponse]
  split_ifs with h
  · simp
  · simpa [reachesConsensus, KMSGenerationStorage.stored, isKmsConsensusReached,
      oneNodeConfig] using h

theorem afterRounds_keygen {n : Nat} (hs : AfterRounds s n) (hn : n < 2 ^ 249) :
    let s' := (kmsGeneration oneNode).step (⟨0, oneNodeConfig⟩, .keygen .default) s
    s'.prepKeygenCounter = PREP_KEYGEN_COUNTER_BASE + (n + 1) ∧
      s'.keyCounter = KEY_COUNTER_BASE + (n + 1) ∧
        s'.kmsHasSignedForResponse = s.kmsHasSignedForResponse := by
  obtain ⟨hP, hK, -, -⟩ := base_values
  have hc := hs.prepKeygenCounter
  have hk := hs.keyCounter
  have hprev : s.keyCounter = KEY_COUNTER_BASE ∨ s.isRequestDone s.keyCounter = true := by
    rcases hs.latest with rfl | hdone
    · exact .inl hk
    · exact .inr (hk ▸ hdone)
  have hwidth : s.prepKeygenCounter + 1 < 2 ^ 256 ∧ s.keyCounter + 1 < 2 ^ 256 := by omega
  have hok : ∃ r, (kmsGeneration oneNode).call (⟨0, oneNodeConfig⟩, .keygen .default) s = .ok r := by
    simp only [kmsGeneration, keygen, onlyGatewayOwner, bind_eq_ok, require_eq_ok, increment_eq_ok]
    exact ⟨_, (), rfl, (), hprev, _, ⟨hwidth.1, rfl⟩, _, ⟨hwidth.2, rfl⟩, rfl⟩
  obtain ⟨⟨ev, s'⟩, hok⟩ := hok
  rw [step_of_ok hok]
  cases committed_of_ok hok with
  | keygen =>
    refine ⟨?_, ?_, rfl⟩
    · dsimp only
      omega
    · dsimp only
      omega
  | response _ _ _ _ _ hc => cases hc

theorem afterRounds_keygenRounds (n : Nat) (hn : n < 2 ^ 249) :
    AfterRounds (kmsAfter oneNode (keygenRounds n)) n := by
  induction n with
  | zero => exact ⟨rfl, rfl, fun _ _ => rfl, .inl rfl⟩
  | succ n ih =>
    have hs := ih (by omega)
    obtain ⟨hc, hk, hsigned⟩ := afterRounds_keygen hs (by omega)
    have hran : AfterRounds ((kmsGeneration oneNode).step
        (⟨1, oneNodeConfig⟩, .keygenResponse (KEY_COUNTER_BASE + (n + 1)) [] [])
        ((kmsGeneration oneNode).step (⟨0, oneNodeConfig⟩, .keygen .default)
          (kmsAfter oneNode (keygenRounds n)))) (n + 1) := by
      generalize (kmsGeneration oneNode).step (⟨0, oneNodeConfig⟩, .keygen .default)
        (kmsAfter oneNode (keygenRounds n)) = s at hc hk hsigned
      have hunsigned := hs.unsigned (n + 1) (by omega)
      rw [← hsigned] at hunsigned
      have hrange : KEY_COUNTER_BASE + (n + 1) ≠ 0 ∧
          KEY_COUNTER_BASE + (n + 1) ≤ RequestKind.keygen.counter s := by
        simp only [RequestKind.counter, hk]
        omega
      obtain ⟨ev, hok⟩ : ∃ ev, (kmsGeneration oneNode).call (⟨1, oneNodeConfig⟩,
          .keygenResponse (KEY_COUNTER_BASE + (n + 1)) [] []) s = .ok (ev, afterResponse oneNode
            ⟨1, oneNodeConfig⟩ (.keygenResponse (KEY_COUNTER_BASE + (n + 1)) [] [])
              (KEY_COUNTER_BASE + (n + 1)) 1 s) :=
        (response_eq_ok rfl).mpr ⟨hrange, 1, ⟨rfl, rfl, hunsigned⟩, rfl⟩
      rw [step_of_ok hok]
      refine ⟨(counter_afterResponse .prepKeygen).trans hc, (counter_afterResponse .keygen).trans hk,
        ?_, .inr ?_⟩
      · intro j hj
        rw [kmsHasSigned_afterResponse, Function.update_of_ne (by omega), hsigned]
        exact hs.unsigned j (by omega)
      · exact done_afterResponse_oneNode
    exact hran

/-- Each response of the rounds is for the key just requested. -/
theorem onlyIssuedIds_keygenRounds (n : Nat) (hn : n < 2 ^ 249) :
    OnlyIssuedIds oneNode (keygenRounds n) := by
  induction n with
  | zero => intro i past hran; simp [keygenRounds] at hran
  | succ n ih =>
    intro i past hran kind id signature hc
    rw [keygenRounds, ran_cons, ran_cons] at hran
    rcases hran with ⟨rfl, rfl⟩ | ⟨rfl, -⟩ | hran
    · cases hc
      obtain ⟨-, hk, -⟩ := afterRounds_keygen (afterRounds_keygenRounds n (by omega)) (by omega)
      refine ⟨.keygen, issued_iff.mpr ⟨?_, ?_⟩⟩
      · simp only [RequestKind.base]
        omega
      · rw [kmsAfter_cons, RequestKind.counter]
        exact hk.ge
    · cases hc
    · exact ih (by omega) i past hran kind id signature hc

theorem not_consistent_keygenRounds {n : Nat} (hlow : 2 ^ 248 < n) (hn : n < 2 ^ 249) :
    ¬ Consistent oneNode (keygenRounds n) := by
  obtain ⟨hP, hK, -, -⟩ := base_values
  obtain ⟨hc, hk, -, -⟩ := afterRounds_keygenRounds n hn
  intro h
  have hprep : Issued oneNode (keygenRounds n) .prepKeygen (KEY_COUNTER_BASE + 1) := by
    rw [issued_iff]
    simp only [RequestKind.base, RequestKind.counter, hc]
    omega
  have hkey : Issued oneNode (keygenRounds n) .keygen (KEY_COUNTER_BASE + 1) := by
    rw [issued_iff]
    simp only [RequestKind.base, RequestKind.counter, hk]
    omega
  cases h.kinds _ _ _ hprep hkey

/-- One key generation too many for the 31 bytes: the id of the last preprocessing is that
of the first key. -/
theorem keygenRounds_collide :
    OnlyIssuedIds oneNode (keygenRounds (2 ^ 248 + 1)) ∧
      ¬ Consistent oneNode (keygenRounds (2 ^ 248 + 1)) :=
  ⟨onlyIssuedIds_keygenRounds _ (by norm_num),
    not_consistent_keygenRounds (by norm_num) (by norm_num)⟩

/-! ## The order of the two rounds of a key generation -/

/-- The run emitted the event. -/
def Emitted (E : Eip712) (calls : List (Msg × KMSGenerationCall)) (event : KMSGenerationEvent) :
    Prop :=
  ∃ i past ev s', Ran calls i past ∧ (kmsGeneration E).call i (kmsAfter E past) = .ok (ev, s') ∧
    event ∈ ev

end Fhevm.Gateway
