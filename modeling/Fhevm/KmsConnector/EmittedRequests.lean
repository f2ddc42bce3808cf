import Fhevm.Gateway.Gateway
import Fhevm.KmsConnector.CarriedFields

/-!
# The requests that the gateway emits

Every request that the contracts emit has a number of its own, except for the initialization of a
PRSS, and no two have the same.

## Main definitions

* `KMSGenerationEvent.request?`, `DecryptionEvent.request?` — the requests among the events.
* `emittedBy` — the requests that a run of the gateway emits.
* `GatewayEventKind.serial?` — the number of a request.
* `Emissions` — what holds of the requests of a run.
-/

namespace Fhevm.KmsConnector

open Foundation Contract Gateway Host

/-! ## Events -/

/-- A number of a contract, as the listeners decode it. -/
def word (n : ℕ) : U256 := BitVec.ofNat 256 n

theorem toNat_word {n : ℕ} (h : n < 2 ^ 256) : (word n).toNat = n := by
  rw [word, BitVec.toNat_ofNat, Nat.mod_eq_of_lt h]

def paramsTypeToU8 : ParamsType → UInt8
  | .default => 0
  | .test => 1

theorem tryFrom_paramsTypeToU8 (paramsType : ParamsType) :
    (ParamsTypeDb.tryFrom (paramsTypeToU8 paramsType)).isSome := by
  cases paramsType <;> decide

def snsCiphertextMaterial (m : CiphertextMaterial) : SnsCiphertextMaterial where
  ctHandle := m.ctHandle
  keyId := word m.keyId
  snsCiphertextDigest := m.digest
  coprocessorTxSenderAddresses := m.coprocessorTxSenderAddresses

def kmsRequest? : KMSGenerationEvent → Option GatewayEventKind
  | .prepKeygenRequest prepKeygenId epochId paramsType =>
    some (.prepKeygen (word prepKeygenId) (word epochId) (paramsTypeToU8 paramsType))
  | .keygenRequest prepKeygenId keyId => some (.keygen (word prepKeygenId) (word keyId))
  | .crsgenRequest crsId maxBitLength paramsType =>
    some (.crsgen (word crsId) (word maxBitLength) (paramsTypeToU8 paramsType))
  | .prssInit => some (.prssInit PRSS_INIT_ID)
  | .keyReshareSameSet prepKeygenId keyId keyReshareId paramsType =>
    some (.keyReshareSameSet (word prepKeygenId) (word keyId) (word keyReshareId)
      (paramsTypeToU8 paramsType))
  | _ => none

def decryptionRequest? : DecryptionEvent → Option GatewayEventKind
  | .publicDecryptionRequest decryptionId snsCtMaterials extraData =>
    some (.publicDecryption (word decryptionId) (snsCtMaterials.map snsCiphertextMaterial)
      extraData)
  | .userDecryptionRequest decryptionId snsCtMaterials userAddress publicKey extraData =>
    some (.userDecryption (word decryptionId) (snsCtMaterials.map snsCiphertextMaterial)
      userAddress publicKey extraData)
  | _ => none

/-- The requests among the events of a call. -/
def requestsAmong : GatewayEvents → List GatewayEventKind
  | .decryption ev => ev.filterMap decryptionRequest?
  | .kms ev => ev.filterMap kmsRequest?
  | _ => []

/-- The requests that a run emits, oldest first. -/
def emittedBy (G : GatewayChain) (owner : Address) :
    List (Address × GatewayCall) → List GatewayEventKind
  | [] => []
  | i :: past => emittedBy G owner past ++
    match (gateway G).call i (gatewayAfter G owner past) with
    | .ok (ev, _) => requestsAmong ev
    | .error _ => []

/-! ## Numbers of requests -/

/-- The number that a request has for itself. A key generation is counted by its preprocessing. -/
def GatewayEventKind.serial? : GatewayEventKind → Option (RequestTable × U256)
  | .publicDecryption decryptionId _ _ => some (.publicDecryptionRequests, decryptionId)
  | .userDecryption decryptionId _ _ _ _ => some (.userDecryptionRequests, decryptionId)
  | .prepKeygen prepKeygenId _ _ => some (.prepKeygenRequests, prepKeygenId)
  | .keygen prepKeygenId _ => some (.keygenRequests, prepKeygenId)
  | .crsgen crsId _ _ => some (.crsgenRequests, crsId)
  | .prssInit _ => none
  | .keyReshareSameSet _ _ keyReshareId _ => some (.keyReshareSameSet, keyReshareId)

section Numbers

variable (d : DecryptionStorage) (k : KMSGenerationStorage)

/-- The request was emitted before. A key has the number of its preprocessing, but there is no key
for the id of a preprocessing that nobody requested. -/
def GatewayEventKind.IssuedBy : GatewayEventKind → Prop
  | .publicDecryption decryptionId _ _ => decryptionId.toNat ≤ d.publicDecryptionCounter
  | .userDecryption decryptionId _ _ _ _ => decryptionId.toNat ≤ d.userDecryptionCounter
  | .prepKeygen prepKeygenId _ _ => prepKeygenId.toNat ≤ k.prepKeygenCounter
  | .keygen prepKeygenId keyId => k.isRequestDone prepKeygenId.toNat = true ∧
    (keyId = 0 ∨ keyId.toNat + PREP_KEYGEN_COUNTER_BASE = prepKeygenId.toNat + KEY_COUNTER_BASE)
  | .crsgen crsId _ _ => crsId.toNat ≤ k.crsCounter
  | .prssInit id => id = PRSS_INIT_ID
  | .keyReshareSameSet _ _ keyReshareId _ => keyReshareId.toNat ≤ k.keyReshareCounter

/-- The request was not emitted before. -/
def GatewayEventKind.NewTo : GatewayEventKind → Prop
  | .publicDecryption decryptionId _ _ => d.publicDecryptionCounter < decryptionId.toNat
  | .userDecryption decryptionId _ _ _ _ => d.userDecryptionCounter < decryptionId.toNat
  | .prepKeygen prepKeygenId _ _ => k.prepKeygenCounter < prepKeygenId.toNat
  | .keygen prepKeygenId _ => k.isRequestDone prepKeygenId.toNat = false
  | .crsgen crsId _ _ => k.crsCounter < crsId.toNat
  | .prssInit _ => True
  | .keyReshareSameSet _ _ keyReshareId _ => k.keyReshareCounter < keyReshareId.toNat

end Numbers

section Numbers

variable {d d' : DecryptionStorage} {k k' : KMSGenerationStorage} {e e' : GatewayEventKind}

/-- A new request has a new number. -/
theorem serial_of_new (hold : e.IssuedBy d k) (hnew : e'.NewTo d k) (hserial : e.serial? = e'.serial?) :
    e.serial? = none := by
  cases e <;> cases e' <;>
    simp only [GatewayEventKind.serial?, Option.some.injEq, Prod.mk.injEq, reduceCtorEq, true_and,
      false_and] at hserial ⊢ <;>
    subst hserial <;>
    simp only [GatewayEventKind.IssuedBy, GatewayEventKind.NewTo] at hold hnew
  all_goals first | omega | simp [hnew] at hold

/-- Numbers stay given. -/
structure Later (d d' : DecryptionStorage) (k k' : KMSGenerationStorage) : Prop where
  publicDecryption : d.publicDecryptionCounter ≤ d'.publicDecryptionCounter
  userDecryption : d.userDecryptionCounter ≤ d'.userDecryptionCounter
  counter : ∀ kind : RequestKind, kind.counter k ≤ kind.counter k'
  done : ∀ id, k.isRequestDone id = true → k'.isRequestDone id = true

theorem Later.issued (h : Later d d' k k') (he : e.IssuedBy d k) : e.IssuedBy d' k' := by
  have hprep := h.counter .prepKeygen
  have hcrs := h.counter .crsgen
  have hreshare := h.counter .keyReshare
  have hpublic := h.publicDecryption
  have huser := h.userDecryption
  simp only [RequestKind.counter] at hprep hcrs hreshare
  cases e with
  | keygen prepKeygenId keyId => exact ⟨h.done _ he.1, he.2⟩
  | prssInit id => exact he
  | publicDecryption | userDecryption | prepKeygen | crsgen | keyReshareSameSet =>
    simp only [GatewayEventKind.IssuedBy] at he ⊢
    omega

end Numbers

/-! ## What a call emits -/

/-- A call emits no request, or one that is new. -/
def EmitsNew (d d' : DecryptionStorage) (k k' : KMSGenerationStorage)
    (requests : List GatewayEventKind) : Prop :=
  requests = [] ∨ ∃ e, requests = [e] ∧ e.Emittable ∧ e.NewTo d k ∧ e.IssuedBy d' k'

section Calls

variable {D : GatewayDeployment} {E : Eip712} {d d' : DecryptionStorage}
  {k k' : KMSGenerationStorage}

/-- The counters of a key generation fit in a word and move together. -/
structure KeysCounted (k : KMSGenerationStorage) : Prop where
  paired : ∃ n, Paired k n
  fits : k.prepKeygenCounter < 2 ^ 256 ∧ k.keyCounter < 2 ^ 256

theorem keysCounted_step (hk : KeysCounted k) {msg : Msg} {c : KMSGenerationCall}
    {ev : List KMSGenerationEvent} (h : (kmsGeneration E).call (msg, c) k = .ok (ev, k')) :
    KeysCounted k' := by
  obtain ⟨⟨n, hn⟩, hfits⟩ := hk
  obtain ⟨m, -, hm⟩ := paired_step hn h
  refine ⟨⟨m, hm⟩, ?_⟩
  have hprep := counter_of_ok .prepKeygen h
  have hkey := counter_of_ok .keygen h
  cases committed_of_ok h with
  | keygen paramsType _ width => exact width
  | crsgenRequest | prssInit | keyReshareSameSet => exact hfits
  | response c kind id signature signer hc =>
    simp only [requests_of_response hc, RequestKind.counter, Bool.false_eq_true, if_false]
      at hprep hkey
    exact ⟨hprep ▸ hfits.1, hkey ▸ hfits.2⟩

theorem later_kms {msg : Msg} {c : KMSGenerationCall} {ev : List KMSGenerationEvent}
    (h : (kmsGeneration E).call (msg, c) k = .ok (ev, k')) : Later d d k k' := by
  refine ⟨le_rfl, le_rfl, fun kind => ?_, fun id hdone => isRequestDone_of_ok hdone h⟩
  have := counter_of_ok kind h
  split_ifs at this <;> omega

/-- A response emits the request for a key only if it concludes the preprocessing. -/
theorem requests_of_respond {msg : Msg} {requestId counter : ℕ}
    {notRequested : ℕ → KMSGenerationError} {digest : Bytes32} {signature : Bytes}
    {alreadySigned : ℕ → Address → KMSGenerationError} {response : KMSGenerationEvent}
    {activate : KMSGenerationStorage → List KMSGenerationEvent × KMSGenerationStorage}
    {ev : List KMSGenerationEvent} (hresponse : kmsRequest? response = none)
    (h : respond E msg requestId counter notRequested digest signature alreadySigned response
      activate k = .ok (ev, k')) :
    ev.filterMap kmsRequest? = [] ∨ ∃ signer,
      let done := setRequestDone requestId digest (k.stored requestId digest signer msg.sender)
      requestId ≤ counter ∧ k.isRequestDone requestId = false ∧
        ev.filterMap kmsRequest? = (activate done).1.filterMap kmsRequest? ∧
          k' = (activate done).2 := by
  simp only [respond, bind_eq_ok, require_eq_ok, storeResponse_eq_ok] at h
  obtain ⟨-, -, -, hid, _, ⟨signer, -, -, rfl⟩, h⟩ := h
  split_ifs at h with hreached
  · cases h
    refine .inr ⟨signer, by omega, ?_, by simp [hresponse], rfl⟩
    simp only [reachesConsensus, KMSGenerationStorage.stored, Bool.and_eq_true,
      Bool.not_eq_true'] at hreached
    exact hreached.1
  · cases h
    exact .inl (by simp [hresponse])

theorem emitsNew_kms (hk : KeysCounted k) {msg : Msg} {c : KMSGenerationCall}
    {ev : List KMSGenerationEvent} (h : (kmsGeneration E).call (msg, c) k = .ok (ev, k')) :
    EmitsNew d d k k' (ev.filterMap kmsRequest?) := by
  obtain ⟨⟨n, hn⟩, hfits⟩ := hk
  cases c with
  | keygen paramsType =>
    simp only [kmsGeneration, keygen, bind_eq_ok, increment_eq_ok] at h
    obtain ⟨-, -, -, -, _, ⟨hprep, rfl⟩, _, ⟨-, rfl⟩, h⟩ := h
    cases h
    refine .inr ⟨_, rfl, tryFrom_paramsTypeToU8 paramsType, ?_, ?_⟩
    · simp [GatewayEventKind.NewTo, toNat_word hprep]
    · simp [GatewayEventKind.IssuedBy, toNat_word hprep]
  | crsgenRequest maxBitLength paramsType =>
    simp only [kmsGeneration, crsgenRequest, bind_eq_ok, increment_eq_ok] at h
    obtain ⟨-, -, -, -, _, ⟨hcrs, rfl⟩, h⟩ := h
    cases h
    refine .inr ⟨_, rfl, tryFrom_paramsTypeToU8 paramsType, ?_, ?_⟩
    · simp [GatewayEventKind.NewTo, toNat_word hcrs]
    · simp [GatewayEventKind.IssuedBy, toNat_word hcrs]
  | prssInit =>
    simp only [kmsGeneration, prssInit, bind_eq_ok] at h
    obtain ⟨-, -, h⟩ := h
    cases h
    exact .inr ⟨_, rfl, trivial, trivial, rfl⟩
  | keyReshareSameSet keyId =>
    simp only [kmsGeneration, keyReshareSameSet, bind_eq_ok, increment_eq_ok] at h
    obtain ⟨-, -, -, -, _, ⟨hreshare, rfl⟩, h⟩ := h
    cases h
    refine .inr ⟨_, rfl, tryFrom_paramsTypeToU8 _, ?_, ?_⟩
    · simp [GatewayEventKind.NewTo, toNat_word hreshare]
    · simp [GatewayEventKind.IssuedBy, toNat_word hreshare]
  | keygenResponse id digests signature =>
    simp only [kmsGeneration, keygenResponse] at h
    obtain hnone | ⟨signer, -, -, hev, -⟩ := requests_of_respond rfl h
    · exact .inl hnone
    · exact .inl hev
  | crsgenResponse id crsDigest signature =>
    simp only [kmsGeneration, crsgenResponse] at h
    obtain hnone | ⟨signer, -, -, hev, -⟩ := requests_of_respond rfl h
    · exact .inl hnone
    · exact .inl hev
  | prepKeygenResponse id signature =>
    simp only [kmsGeneration, prepKeygenResponse] at h
    obtain hnone | ⟨signer, hid, hopen, hev, rfl⟩ := requests_of_respond rfl h
    · exact .inl hnone
    · right
      have hword : (word id).toNat = id := toNat_word (by omega)
      refine ⟨_, hev, trivial, ?_, ?_, ?_⟩
      · simpa only [GatewayEventKind.NewTo, hword] using hopen
      · simp [hword, setRequestDone]
      · have hc := hn.prepKeygenCounter
        have hc' := hn.keyCounter
        by_cases hlow : id ≤ PREP_KEYGEN_COUNTER_BASE
        · left
          have hpair : k.keygenIdPairs id = 0 := hn.low id hlow
          simp [KMSGenerationStorage.stored, setRequestDone, hpair, word]
        · right
          obtain ⟨j, rfl⟩ : ∃ j, id = PREP_KEYGEN_COUNTER_BASE + j :=
            ⟨id - PREP_KEYGEN_COUNTER_BASE, by omega⟩
          have hpair : k.keygenIdPairs (PREP_KEYGEN_COUNTER_BASE + j) = KEY_COUNTER_BASE + j :=
            hn.prep j (by omega) (by omega)
          simp only [KMSGenerationStorage.stored, setRequestDone, hpair, hword]
          rw [toNat_word (by omega)]
          omega

/-- The materials of a request are under one key. -/
theorem emittable_materials {materials : List CiphertextMaterial}
    (h : checkCtMaterialKeyIds materials = .ok ()) :
    ∀ m ∈ materials.map snsCiphertextMaterial, ∀ m' ∈ materials.map snsCiphertextMaterial,
      m.keyId = m'.keyId := by
  cases materials with
  | nil => simp
  | cons first others =>
    have hsame : ∀ material ∈ first :: others, material.keyId = first.keyId := by
      intro material hmem
      obtain rfl | hmem := List.mem_cons.mp hmem
      · rfl
      · exact require_eq_ok.mp (forM_eq_ok.mp h material hmem)
    intro m hm m' hm'
    obtain ⟨material, hmem, rfl⟩ := List.mem_map.mp hm
    obtain ⟨material', hmem', rfl⟩ := List.mem_map.mp hm'
    simp only [snsCiphertextMaterial, hsame material hmem, hsame material' hmem']

theorem later_decryption {i : GatewayTx × DecryptionCall} {ev : List DecryptionEvent}
    (h : (decryption D).call i d = .ok (ev, d')) : Later d d' k k := by
  refine ⟨?_, ?_, fun _ => le_rfl, fun _ => id⟩
  all_goals
    obtain ⟨v, -, hresponded⟩ | ⟨-, hother, -⟩ := decryption_ok h
    · simp [hresponded.next, DecryptionStorage.afterBallot]
    · cases hother with
      | publicRequest _ _ _ _ next => simp [next, DecryptionStorage.afterPublicRequest]
      | userRequest _ _ _ next => simp [next, DecryptionStorage.afterUserRequest]
      | pausing _ _ next => simp [next]

theorem emitsNew_decryption {i : GatewayTx × DecryptionCall} {ev : List DecryptionEvent}
    (h : (decryption D).call i d = .ok (ev, d')) :
    EmitsNew d d' k k (ev.filterMap decryptionRequest?) := by
  obtain ⟨tx, call⟩ := i
  cases call with
  | publicDecryptionRequest ctHandles extraData env =>
    simp only [decryption, publicDecryptionRequest, bind_eq_ok, increment_eq_ok] at h
    obtain ⟨_, -, _, -, _, -, materials, -, _, hkeys, _, ⟨hid, rfl⟩, _, -, h⟩ := h
    cases h
    refine .inr ⟨_, rfl, emittable_materials hkeys, ?_, ?_⟩
    · simp [GatewayEventKind.NewTo, toNat_word hid]
    · simp [GatewayEventKind.IssuedBy, toNat_word hid]
  | userDecryptionRequest r env =>
    simp only [decryption, userDecryptionRequest, bind_eq_ok, increment_eq_ok] at h
    obtain ⟨_, -, _, -, _, -, _, -, _, -, _, -, _, -, materials, -, _, hkeys, _, ⟨hid, rfl⟩, _, -,
      h⟩ := h
    cases h
    refine .inr ⟨_, rfl, emittable_materials hkeys, ?_, ?_⟩
    · simp [GatewayEventKind.NewTo, toNat_word hid]
    · simp [GatewayEventKind.IssuedBy, toNat_word hid]
  | publicDecryptionResponse id decryptedResult signature extraData =>
    simp only [decryption, publicDecryptionResponse, bind_eq_ok] at h
    obtain ⟨_, -, _, -, _, -, h⟩ := h
    split_ifs at h <;> cases h <;> exact .inl rfl
  | userDecryptionResponse id userDecryptedShare signature extraData =>
    simp only [decryption, userDecryptionResponse, bind_eq_ok] at h
    obtain ⟨_, -, _, -, _, -, h⟩ := h
    split_ifs at h <;> cases h <;> exact .inl rfl
  | pause isPauser =>
    simp only [decryption, bind_eq_ok] at h
    obtain ⟨_, -, h⟩ := h
    cases h
    exact .inl rfl
  | unpause =>
    simp only [decryption, bind_eq_ok] at h
    obtain ⟨_, -, h⟩ := h
    cases h
    exact .inl rfl

end Calls

/-! ## What a run emits -/

section Runs

variable {G : GatewayChain}

/-- What a call of the gateway does to the requests. -/
theorem emitsNew_gateway {i : Address × GatewayCall} {s s' : GatewayState} {ev : GatewayEvents}
    (hk : KeysCounted s.kms) (h : (gateway G).call i s = .ok (ev, s')) :
    KeysCounted s'.kms ∧ Later s.decryption s'.decryption s.kms s'.kms ∧
      EmitsNew s.decryption s'.decryption s.kms s'.kms (requestsAmong ev) := by
  obtain ⟨sender, call⟩ := i
  have hrefl : Later s.decryption s.decryption s.kms s.kms :=
    ⟨le_rfl, le_rfl, fun _ => le_rfl, fun _ => id⟩
  cases call with
  | kms call =>
    obtain ⟨ev, k', hcall, rfl, rfl⟩ := onPart_eq_ok.mp h
    exact ⟨keysCounted_step hk hcall, later_kms hcall, emitsNew_kms hk hcall⟩
  | decryption call =>
    obtain ⟨ev, d', hcall, rfl, rfl⟩ := onPart_eq_ok.mp h
    exact ⟨hk, later_decryption hcall, emitsNew_decryption hcall⟩
  | config call | inputs call | commits call | allow call | delegation call args =>
    obtain ⟨_, _, -, rfl, rfl⟩ := onPart_eq_ok.mp h
    exact ⟨hk, hrefl, .inl rfl⟩

/-- What holds of the requests of a run. -/
structure Emissions (emitted : List GatewayEventKind) (s : GatewayState) : Prop where
  counted : KeysCounted s.kms
  emittable : ∀ e ∈ emitted, e.Emittable
  issued : ∀ e ∈ emitted, e.IssuedBy s.decryption s.kms
  distinct : emitted.Pairwise fun e e' => e.serial? = e'.serial? → e.serial? = none

theorem emissions (G : GatewayChain) (owner : Address) (calls : List (Address × GatewayCall)) :
    Emissions (emittedBy G owner calls) (gatewayAfter G owner calls) := by
  induction calls with
  | nil =>
    refine ⟨⟨⟨0, rfl, rfl, fun _ _ => rfl, by omega, by omega, by omega⟩, ?_⟩, ?_, ?_, .nil⟩
    · change PREP_KEYGEN_COUNTER_BASE < 2 ^ 256 ∧ KEY_COUNTER_BASE < 2 ^ 256
      decide +kernel
    all_goals simp [emittedBy]
  | cons i past ih =>
    obtain ⟨e, he, hs⟩ | ⟨ev, hev⟩ := step_cases (C := gateway G) i (gatewayAfter G owner past)
    · rw [emittedBy, he, gatewayAfter, exec_cons, hs]
      simpa using ih
    · rw [emittedBy, hev]
      change Emissions _ ((gateway G).step i (gatewayAfter G owner past))
      obtain ⟨hcounted, hlater, hnone | ⟨e, hone, hemit, hnew, hissued⟩⟩ :=
        emitsNew_gateway ih.counted hev
      · simp only [hnone, List.append_nil]
        exact ⟨hcounted, ih.emittable, fun e he => hlater.issued (ih.issued e he), ih.distinct⟩
      · simp only [hone]
        refine ⟨hcounted, ?_, ?_, ?_⟩
        · intro e' he'
          obtain he' | he' := List.mem_append.mp he'
          · exact ih.emittable e' he'
          · rwa [List.mem_singleton.mp he']
        · intro e' he'
          obtain he' | he' := List.mem_append.mp he'
          · exact hlater.issued (ih.issued e' he')
          · rwa [List.mem_singleton.mp he']
        · refine List.pairwise_append.mpr ⟨ih.distinct, List.pairwise_singleton _ _, ?_⟩
          intro e' he' e'' he'' hserial
          rw [List.mem_singleton.mp he''] at hserial
          exact serial_of_new (ih.issued e' he') hnew hserial

/-- Requests with the same number are the same emission. -/
theorem Emissions.eq_of_serial {emitted : List GatewayEventKind} {s : GatewayState}
    (h : Emissions emitted s) {m n : ℕ} {e e' : GatewayEventKind} (hm : emitted[m]? = some e)
    (hn : emitted[n]? = some e') (hserial : e.serial? = e'.serial?) (hsome : e.serial? ≠ none) :
    m = n := by
  obtain ⟨hlength, rfl⟩ := List.getElem?_eq_some_iff.mp hm
  obtain ⟨hlength', rfl⟩ := List.getElem?_eq_some_iff.mp hn
  have hdistinct := List.pairwise_iff_getElem.mp h.distinct
  obtain hlt | heq | hgt := lt_trichotomy m n
  · exact absurd (hdistinct m n hlength hlength' hlt hserial) hsome
  · exact heq
  · exact absurd (hserial.trans (hdistinct n m hlength' hlength hgt hserial.symm)) hsome

/-- Requests for one key have one preprocessing, unless it was not requested. -/
theorem Emissions.prepKeygenId_eq {emitted : List GatewayEventKind} {s : GatewayState}
    (h : Emissions emitted s) {prepKeygenId prepKeygenId' keyId : U256}
    (he : .keygen prepKeygenId keyId ∈ emitted) (he' : .keygen prepKeygenId' keyId ∈ emitted)
    (hkey : keyId ≠ 0) : prepKeygenId = prepKeygenId' := by
  have hpair := (h.issued _ he).2.resolve_left hkey
  have hpair' := (h.issued _ he').2.resolve_left hkey
  exact BitVec.eq_of_toNat_eq (by omega)

end Runs

end Fhevm.KmsConnector
