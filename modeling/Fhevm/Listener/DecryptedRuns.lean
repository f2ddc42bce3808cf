import Fhevm.Listener.ClearMeaning

/-!
# Every ciphertext of a run decrypts to its clear text

The events of a run of the host contracts give every handle one clear text. However they are
ordered, as long as operands come before their uses, the ciphertext that is computed for a handle
decrypts to it. The order in which the contracts emit them is such an order.

## Main definitions

* `StoreStandsFor` — all ciphertexts of a store decrypt to the clear texts of their handles.
* `emittedEvents` — the events of a run, in the order in which they were emitted.
* `replay_decrypts`, `emittedEvents_inOrder` — the main results.
-/

namespace Fhevm.Listener

open Foundation Contract Host Worker Scheduler FHEVMExecutor

variable {R : Type} {lib : TfheLibrary R} {decrypt : FheTypes → R → ℕ}
  {value : BinaryOperator → FheTypes → ℕ → ℕ → ℕ} {K : HostConfig}
  {calls : List (HostCall K.deployment)}

/-! ## One event -/

/-- The ciphertext of every handle decrypts to the clear text of the handle. -/
def StoreStandsFor (decrypt : FheTypes → R → ℕ) (clear : ClearTexts) (store : Ciphertexts R) :
    Prop := ∀ handle ct, store handle = some ct → StandsFor decrypt clear handle ct

/-- The handles among the operands of a row are those of the event. -/
theorem mem_operandsOf {call : ExecutorCall} (htyped : WellTyped call) (caller : Address)
    {seed : BitVec 128} (result : Bytes32) {dh : Handle}
    (h : DFGTaskInput.dependence dh ∈ rowInputs R seed call) :
    ∃ handle ∈ operandsOf (call.event caller seed result), dh = wordBytes handle := by
  cases call with
  | binary op lhs rhs scalarByte =>
    obtain ⟨t, -, -, hscalar, -⟩ := htyped
    obtain ⟨rfl, -⟩ | rfl := hscalar <;> simp_all [rowInputs, operandsOf, ExecutorCall.event]
  | _ => simp_all [rowInputs, operandsOf, ExecutorCall.event]

/-- The operands of an event are there, and they are what they stand for. -/
theorem exists_operands {clear : ClearTexts} {store : Ciphertexts R}
    (hstore : StoreStandsFor decrypt clear store) {call : ExecutorCall} (htyped : WellTyped call)
    {caller : Address} {seed : BitVec 128} {result : Bytes32}
    (havailable : ∀ handle ∈ operandsOf (call.event caller seed result),
      (store (wordBytes handle)).isSome) :
    ∃ cts, (rowInputs R seed call).mapM (operandValue store) = .ok cts ∧
      List.Forall₂ (Supplies (StandsFor decrypt clear)) (rowInputs R seed call) cts := by
  have hvalues : ∀ i ∈ rowInputs R seed call, ∃ ct, operandValue store i = .ok ct := by
    intro i hi
    cases i with
    | value ct => exact ⟨ct, rfl⟩
    | compressed t c => exact absurd hi compressed_not_mem_rowInputs
    | dependence dh =>
      obtain ⟨handle, hhandle, heq⟩ := mem_operandsOf htyped caller result hi
      obtain ⟨ct, hct⟩ := Option.isSome_iff_exists.mp (havailable handle hhandle)
      exact ⟨ct, by rw [operandValue, heq, hct]⟩
  obtain ⟨cts, hcts, -⟩ := exists_mapM_ok hvalues
  refine ⟨cts, hcts, (mapM_eq_ok.mp hcts).imp fun i ct hct => ?_⟩
  cases i with
  | value v => exact (Except.ok.inj hct).symm
  | compressed t c => cases hct
  | dependence dh =>
    rw [operandValue] at hct
    split at hct
    · rename_i hget
      cases hct
      exact hstore dh ct hget
    · cases hct

/-- Evaluating an event of the run whose operands are there. -/
theorem replayEvent_standsFor (hlib : Homomorphic lib decrypt value) (tenantId : ℤ) (now : ℕ)
    {clear : ClearTexts} {store : Ciphertexts R} (hstore : StoreStandsFor decrypt clear store)
    {log : LogTfhe} (hemits : EmitsEvent K calls log.event) (hfits : log.event.Fits)
    (hrespects : clear.Respects hlib.randomTexts log.event)
    (havailable : ∀ handle ∈ operandsOf log.event, (store (wordBytes handle)).isSome) :
    ∃ store', replayEvent lib tenantId now store log = .ok store' ∧
      StoreStandsFor decrypt clear store' ∧
      (∀ handle, (store handle).isSome → (store' handle).isSome) ∧
      ∀ result, computedBy log.event = some result → (store' (wordBytes result)).isSome := by
  obtain ⟨event, transactionHash, allowed⟩ := log
  obtain ⟨ctx, call, past, result, s', -, hok⟩ := hemits
  cases hinput : call.isInput with
  | true =>
    cases call with
    | verifyInput inputHandle userAddress inputProof inputType =>
      obtain ⟨-, -, rfl, -⟩ := verifyInput_ok hok
      exact ⟨store, rfl, hstore, fun _ => id, by simp [computedBy]⟩
    | _ => cases hinput
  | false =>
    obtain ⟨htyped, rfl, -⟩ := executorCall_ok hinput hok
    obtain ⟨type, htype, hhandle⟩ := result_eq_handleOf hinput hok
    have hresult : typeOf result = some type := hhandle ▸ typeOf_handleOf _ _ _
    obtain ⟨c, hrow, -, -, htoOp⟩ := toOp_event R hinput htyped
    obtain ⟨cts, hcts, hsupplied⟩ := exists_operands hstore htyped havailable
    obtain ⟨t, r, hperform, hnum, hdecrypt⟩ :=
      performs_event hlib hinput htyped htype hresult hfits hrespects hsupplied
    refine ⟨Function.update store (wordBytes result) (some (.enc t r)), ?_, ?_, ?_, ?_⟩
    · have houtput : c.outputHandle = wordBytes result := Computation.outputHandle_toOp htoOp
      rw [replayEvent, hrow, ← houtput]
      simp only [replayComputation, htoOp, ofOperation, Except.mapError, bind_eq_ok, pure_eq_ok]
      exact ⟨_, rfl, cts, hcts, _, by rw [hperform], rfl⟩
    · intro handle ct hget
      by_cases heq : handle = wordBytes result
      · rw [heq, Function.update_self, Option.some.injEq] at hget
        exact ⟨result, type, t, r, heq, hresult, hnum, hget.symm, hdecrypt⟩
      · rw [Function.update_of_ne heq] at hget
        exact hstore handle ct hget
    · intro handle hsome
      by_cases heq : handle = wordBytes result
      · rw [heq, Function.update_self]
        rfl
      · rwa [Function.update_of_ne heq]
    · intro result' hresult'
      rw [computedBy_event hinput, Option.some.injEq] at hresult'
      rw [← hresult', Function.update_self]
      rfl

/-! ## Runs -/

/-- The events of a run in an order in which operands come before their uses. -/
theorem replay_standsFor (hlib : Homomorphic lib decrypt value) (tenantId : ℤ) (now : ℕ)
    {clear : ClearTexts} (hfits : ∀ event, EmitsEvent K calls event → event.Fits)
    (hrespects : ∀ event, EmitsEvent K calls event → clear.Respects hlib.randomTexts event)
    {logs : List LogTfhe} (hlogs : ∀ log ∈ logs, EmitsEvent K calls log.event)
    {store : Ciphertexts R} (hstore : StoreStandsFor decrypt clear store)
    (horder : InDependenceOrder {handle | (store (wordBytes handle)).isSome} logs) :
    ∃ store', replay lib tenantId now store logs = .ok store' ∧
      StoreStandsFor decrypt clear store' ∧
      (∀ handle, (store handle).isSome → (store' handle).isSome) ∧
      ∀ log ∈ logs, ∀ result, computedBy log.event = some result →
        (store' (wordBytes result)).isSome := by
  induction logs generalizing store with
  | nil => exact ⟨store, rfl, hstore, fun _ => id, by simp⟩
  | cons log logs ih =>
    have hemits := hlogs log List.mem_cons_self
    obtain ⟨store₁, hfirst, hstore₁, hkept, hcomputed⟩ := replayEvent_standsFor hlib tenantId now
      hstore hemits (hfits _ hemits) (hrespects _ hemits) horder.1
    have horder₁ : InDependenceOrder {handle | (store₁ (wordBytes handle)).isSome} logs := by
      refine horder.2.mono ?_
      rintro handle (hsome | hresult)
      · exact hkept _ hsome
      · exact hcomputed handle hresult
    obtain ⟨store₂, hrest, hstore₂, hkept₂, hcomputed₂⟩ :=
      ih (fun log hlog => hlogs log (List.mem_cons_of_mem _ hlog)) hstore₁ horder₁
    refine ⟨store₂, ?_, hstore₂, fun handle hsome => hkept₂ handle (hkept handle hsome), ?_⟩
    · rw [replay, List.foldlM_cons, hfirst]
      exact hrest
    · rw [List.forall_mem_cons]
      exact ⟨fun result hresult => hkept₂ _ (hcomputed result hresult), hcomputed₂⟩

/-! ## The order of emission -/

/-- The events that are emitted, in order. -/
def emittedEvents (K : HostConfig) : List (HostCall K.deployment) → List TfheEvent
  | [] => []
  | .executor ctx call :: past => emittedEvents K past ++
      match executorCall K.deployment K.signatures ctx (hostAfter K past) call with
      | .ok ((_, event), _) => [event]
      | .error _ => []
  | _ :: past => emittedEvents K past

theorem emitsEvent_cons_executor {past : List (HostCall K.deployment)} {ctx : Context}
    {call : ExecutorCall} {event : TfheEvent} :
    EmitsEvent K (.executor ctx call :: past) event ↔ EmitsEvent K past event ∨
      ∃ result s', executorCall K.deployment K.signatures ctx (hostAfter K past) call =
        .ok ((result, event), s') := by
  constructor
  · rintro ⟨ctx', call', before, result, s', hran, hok⟩
    rcases ran_cons.mp hran with ⟨heq, rfl⟩ | hran
    · cases heq
      exact .inr ⟨result, s', hok⟩
    · exact .inl ⟨ctx', call', before, result, s', hran, hok⟩
  · rintro (⟨ctx', call', before, result, s', hran, hok⟩ | ⟨result, s', hok⟩)
    · exact ⟨ctx', call', before, result, s', hran.tail, hok⟩
    · exact ⟨ctx, call, past, result, s', Ran.head _ _, hok⟩

theorem emitsEvent_cons_of_ne {past : List (HostCall K.deployment)} {i : HostCall K.deployment}
    (hne : ∀ ctx call, i ≠ .executor ctx call) {event : TfheEvent} :
    EmitsEvent K (i :: past) event ↔ EmitsEvent K past event := by
  constructor
  · rintro ⟨ctx, call, before, result, s', hran, hok⟩
    rcases ran_cons.mp hran with ⟨rfl, -⟩ | hran
    · exact absurd rfl (hne ctx call)
    · exact ⟨ctx, call, before, result, s', hran, hok⟩
  · rintro ⟨ctx, call, before, result, s', hran, hok⟩
    exact ⟨ctx, call, before, result, s', hran.tail, hok⟩

theorem mem_emittedEvents {event : TfheEvent} :
    event ∈ emittedEvents K calls ↔ EmitsEvent K calls event := by
  induction calls with
  | nil => simp [emittedEvents, EmitsEvent]
  | cons i past ih =>
    cases i with
    | executor ctx call =>
      rw [emittedEvents, List.mem_append, ih, emitsEvent_cons_executor]
      cases hcall : executorCall K.deployment K.signatures ctx (hostAfter K past) call with
      | error e => simp
      | ok r =>
        obtain ⟨⟨result, event'⟩, s'⟩ := r
        simp [eq_comm]
    | _ =>
      rw [emitsEvent_cons_of_ne (by rintro _ _ ⟨⟩), ← ih]
      rfl

/-- A list of events is in order when its parts are. -/
theorem inDependenceOrder_append {available : Set Bytes32} {logs logs' : List LogTfhe} :
    InDependenceOrder available (logs ++ logs') ↔ InDependenceOrder available logs ∧
      InDependenceOrder (available ∪ {handle | ∃ log ∈ logs, computedBy log.event = some handle})
        logs' := by
  induction logs generalizing available with
  | nil => simp [InDependenceOrder]
  | cons log logs ih =>
    have hunion : available ∪ {handle | computedBy log.event = some handle} ∪
        {handle | ∃ l ∈ logs, computedBy l.event = some handle} =
          available ∪ {handle | ∃ l ∈ log :: logs, computedBy l.event = some handle} := by
      ext handle
      simp [or_assoc]
    rw [List.cons_append, InDependenceOrder, ih, hunion, InDependenceOrder]
    tauto

/-- The executor verified the handle as an input. -/
def IsVerified (K : HostConfig) (calls : List (HostCall K.deployment)) (handle : Bytes32) : Prop :=
  ∃ ctx call past, Ran calls (.executor ctx call) past ∧ call.isInput = true ∧
    Returns K past ctx call handle

/-- The handles in an event are operands of its call. -/
theorem mem_operands_of_event {past : List (HostCall K.deployment)} {ctx : Context}
    {call : ExecutorCall} {result : Bytes32} {event : TfheEvent} {s' : HostState}
    (hok : executorCall K.deployment K.signatures ctx (hostAfter K past) call =
      .ok ((result, event), s')) {handle : Bytes32} (hmem : handle ∈ operandsOf event) :
    handle ∈ call.operands := by
  cases hinput : call.isInput with
  | true =>
    cases call with
    | verifyInput inputHandle userAddress inputProof inputType =>
      obtain ⟨-, -, rfl, -⟩ := verifyInput_ok hok
      cases hmem
    | _ => cases hinput
  | false =>
    obtain ⟨-, rfl, -⟩ := executorCall_ok hinput hok
    cases call <;> exact hmem

/-- The events of a part of the run. The operands of its last event were returned before it, so
they are inputs or results of the events before. -/
theorem emittedEvents_inOrder_suffix (hslots : SlotsApart K calls ∅)
    {past : List (HostCall K.deployment)} (hs : past <:+ calls) {logs : List LogTfhe}
    (hlogs : logs.map LogTfhe.event = emittedEvents K past) :
    InDependenceOrder {handle | IsVerified K calls handle} logs := by
  induction past generalizing logs with
  | nil =>
    rw [emittedEvents, List.map_eq_nil_iff] at hlogs
    rw [hlogs]
    trivial
  | cons i past ih =>
    have hpast : past <:+ calls := (List.suffix_cons i past).trans hs
    cases i with
    | executor ctx call =>
      obtain ⟨before, now, rfl, hbefore, hnow⟩ := List.map_eq_append_iff.mp hlogs
      refine inDependenceOrder_append.mpr ⟨ih hpast hbefore, ?_⟩
      cases hcall : executorCall K.deployment K.signatures ctx (hostAfter K past) call with
      | error e =>
        rw [hcall] at hnow
        rw [List.map_eq_nil_iff.mp hnow]
        trivial
      | ok r =>
        obtain ⟨⟨result, event⟩, s'⟩ := r
        rw [hcall] at hnow
        obtain ⟨log, rfl, rfl⟩ := List.map_eq_singleton_iff.mp hnow
        have hran : Ran calls (.executor ctx call) past := hs
        refine ⟨fun handle hmem => ?_, trivial⟩
        obtain ⟨ctx', call', past', hran', event', s'', hok'⟩ :=
          operand_returned hslots hran ⟨_, s', hcall⟩ (mem_operands_of_event hcall hmem)
        cases hinput : call'.isInput with
        | true =>
          exact .inl ⟨ctx', call', past', hran'.of_suffix hpast, hinput, event', s'', hok'⟩
        | false =>
          have hevent : event' ∈ before.map LogTfhe.event := by
            rw [hbefore, mem_emittedEvents]
            exact ⟨ctx', call', past', handle, s'', hran', hok'⟩
          obtain ⟨log', hlog', rfl⟩ := List.mem_map.mp hevent
          obtain ⟨-, heq, -⟩ := executorCall_ok hinput hok'
          exact .inr ⟨log', hlog', by rw [heq, computedBy_event hinput]⟩
    | _ => exact ih hpast hlogs

/-- The events of a run, in the order in which they are emitted, compute the operands of every
operation before it, but for the verified inputs. -/
theorem emittedEvents_inOrder (K : HostConfig) (calls : List (HostCall K.deployment))
    (hslots : SlotsApart K calls ∅) (logs : List LogTfhe)
    (hlogs : logs.map LogTfhe.event = emittedEvents K calls) :
    InDependenceOrder {handle | IsVerified K calls handle} logs :=
  emittedEvents_inOrder_suffix hslots List.suffix_rfl hlogs

/-! ## Decryption -/

/-- The clear texts matter at the handles of the ciphertexts. -/
theorem StoreStandsFor.congr {clear given : ClearTexts} {store : Ciphertexts R}
    (hstore : StoreStandsFor decrypt given store)
    (h : ∀ handle, (store (wordBytes handle)).isSome → clear.text handle = given.text handle) :
    StoreStandsFor decrypt clear store := by
  intro handle ct hget
  obtain ⟨word, t, t', c, heq, ht, hnum, hct, hdecrypt⟩ := hstore handle ct hget
  have hsame : clear.text word = given.text word := h word (by rw [← heq, hget]; rfl)
  exact ⟨word, t, t', c, heq, ht, hnum, hct, hdecrypt.trans hsame.symm⟩

/-- The handles of a run have clear texts, those of the inputs as given, such that every event
tells the clear text of its result, and the events of the run, in every order in which operands
come before their uses, are evaluated to ciphertexts that decrypt to the clear texts. -/
theorem replay_decrypts (hlib : Homomorphic lib decrypt value) (K : HostConfig)
    (calls : List (HostCall K.deployment)) (hslots : SlotsApart K calls ∅)
    (hapart : DescriptionsApart K calls) (hfits : ∀ event, EmitsEvent K calls event → event.Fits)
    (given : ClearTexts) :
    ∃ clear : ClearTexts,
      (∀ handle, indexHandle handle ≠ 0xff → clear.text handle = given.text handle) ∧
      (∀ event, EmitsEvent K calls event → clear.Evaluates event) ∧
      ∀ (tenantId : ℤ) (now : ℕ) (inputs : Ciphertexts R) (logs : List LogTfhe),
        StoreStandsFor decrypt given inputs →
        (∀ handle, (inputs (wordBytes handle)).isSome → indexHandle handle ≠ 0xff) →
        (∀ log ∈ logs, EmitsEvent K calls log.event) →
        InDependenceOrder {handle | (inputs (wordBytes handle)).isSome} logs →
        ∃ store, replay lib tenantId now inputs logs = .ok store ∧
          ∀ log ∈ logs, ∀ result, computedBy log.event = some result →
            ∃ t c, store (wordBytes result) = some (.enc t c) ∧
              t.num = (byteAt result 30).toNat ∧ decrypt t c = clear.text result := by
  obtain ⟨clear, hgiven, hrespects⟩ :=
    clearTexts_of_run hlib.randomTexts hslots hapart hfits given
  refine ⟨clear, hgiven, fun event hemits => (hrespects event hemits).evaluates, ?_⟩
  intro tenantId now inputs logs hinputs hindex hlogs horder
  have hstart : StoreStandsFor decrypt clear inputs :=
    hinputs.congr fun handle hsome => hgiven handle (hindex handle hsome)
  obtain ⟨store, hreplay, hstore, -, hcomputed⟩ :=
    replay_standsFor hlib tenantId now hfits hrespects hlogs hstart horder
  refine ⟨store, hreplay, ?_⟩
  intro log hlog result hresult
  obtain ⟨ct, hct⟩ := Option.isSome_iff_exists.mp (hcomputed log hlog result hresult)
  have hmeans := hstore _ ct hct
  obtain ⟨word, t, t', c, heq, ht, hnum, rfl, hdecrypt⟩ := hmeans
  obtain rfl := wordBytes_injective heq
  refine ⟨t', c, hct, hnum.trans ?_, hdecrypt⟩
  rw [FheType.ofNat?_eq_some.mp ht]

/-! ### Clear numbers -/

/-- The library that does not encrypt, with numbers that are cut where they are used. -/
def exactLibrary : TfheLibrary ℕ where
  __ := cutLibrary
  unary op t a := clearLibrary.unary op t (a % 2 ^ t.bits)
  select _ flag a b := if flag % 2 = 1 then a else b

/-- Values of a width are computed as the clear texts are. -/
theorem clearBinary_eq_clearText (op : BinaryOperator) {t : FheTypes} {x y : ℕ}
    (hx : x < 2 ^ t.bits) (hy : y < 2 ^ t.bits) (hdiv : op.IsDivision → y ≠ 0) :
    clearBinary (binaryToOp op) t x y % 2 ^ (tfheResultType op t).bits =
      op.clearText t.bits x y := by
  have hbool : ∀ (b : Bool) (p : Prop) [Decidable p], (b = true ↔ p) →
      b.toNat % 2 ^ FheTypes.fheBool.bits = if p then 1 else 0 := by
    rintro (_ | _) p _ h
    · rw [if_neg fun hp => by cases h.mpr hp]
      rfl
    · rw [if_pos (h.mp rfl)]
      rfl
  cases op with
  | fheSub =>
    simp only [clearBinary, binaryToOp, tfheResultType, id, BinaryOperator.clearText, Nat.mod_mod]
    split_ifs with hlt
    · congr 1
      omega
    · rw [show x + (2 ^ t.bits - y) = x - y + 2 ^ t.bits by omega, Nat.add_mod_right]
  | fheDiv =>
    simp only [clearBinary, binaryToOp, tfheResultType, id, BinaryOperator.clearText]
    rw [if_neg (hdiv (.inl rfl)), Nat.mod_eq_of_lt ((Nat.div_le_self x y).trans_lt hx)]
  | fheRem => exact Nat.mod_eq_of_lt ((Nat.mod_le x y).trans_lt hx)
  | fheAdd | fheMul | fheShl | fheRotl | fheRotr => exact Nat.mod_mod _ _
  | fheBitAnd | fheBitOr | fheBitXor | fheShr => rfl
  | fheEq => exact hbool _ _ beq_iff_eq
  | fheNe => exact hbool _ _ bne_iff_ne
  | fheGe | fheGt | fheLe | fheLt => exact hbool _ _ decide_eq_true_iff
  | fheMin =>
    simp only [clearBinary, binaryToOp, tfheResultType, id, BinaryOperator.clearText]
    rw [Nat.mod_eq_of_lt (by omega)]
    split_ifs <;> omega
  | fheMax =>
    simp only [clearBinary, binaryToOp, tfheResultType, id, BinaryOperator.clearText]
    rw [Nat.mod_eq_of_lt (by omega)]
    split_ifs <;> omega

theorem homomorphic_exactLibrary : Homomorphic exactLibrary cutDecrypt fun op t x y =>
    clearBinary (binaryToOp op) t x y % 2 ^ (tfheResultType op t).bits where
  toComputes := by
    constructor
    · exact computes_cutLibrary.decrypt_lt
    · exact computes_cutLibrary.tryEncryptTrivial
    · exact computes_cutLibrary.castInto
    · exact computes_cutLibrary.binary
    · exact computes_cutLibrary.binaryScalar
    · exact computes_cutLibrary.bool
  value_eq {op _ _} _ _ _ _ hx hy hdiv := clearBinary_eq_clearText op hx hy hdiv
  unary {op t t'} _ _ a := by
    have hlt : a % 2 ^ t'.bits < 2 ^ t'.bits := Nat.mod_lt _ (Nat.two_pow_pos _)
    cases op with
    | fheNeg =>
      change (2 ^ t'.bits - a % 2 ^ t'.bits) % 2 ^ t'.bits % 2 ^ t'.bits =
        (2 ^ t'.bits - 1 - a % 2 ^ t'.bits % 2 ^ t'.bits + 1) % 2 ^ t'.bits
      rw [Nat.mod_mod, Nat.mod_mod]
      congr 1
      omega
    | fheNot =>
      change (2 ^ t'.bits - 1 - a % 2 ^ t'.bits) % 2 ^ t'.bits =
        2 ^ t'.bits - 1 - a % 2 ^ t'.bits % 2 ^ t'.bits
      rw [Nat.mod_mod]
      exact Nat.mod_eq_of_lt (by omega)
  select t flag a b := by
    change (if flag % 2 = 1 then a else b) % 2 ^ t.bits = if flag % 2 ^ 1 = 1 then _ else _
    rw [pow_one]
    split_ifs <;> rfl

theorem negatingRun_facts :
    emittedEvents sampleConfig negatingRun = negatingLogs.map LogTfhe.event ∧
    prehandleHash sampleConfig.deployment
      ((ExecutorCall.trivialEncrypt 5 .uint8).preimage sampleConfig.deployment 0) ≠
        prehandleHash sampleConfig.deployment
          ((ExecutorCall.unary .fheNeg sharedHandle).preimage sampleConfig.deployment 0) ∧
    slotOf sampleConfig (sharedHandle, 10) ≠ slotOf sampleConfig (negatedHandle, 10) ∧
    2 < (slotOf sampleConfig (sharedHandle, 10)).toNat ∧
    2 < (slotOf sampleConfig (negatedHandle, 10)).toNat := by
  decide +kernel

/-- No operation of the run is random. -/
theorem preimage_negatingRun (seed : BitVec 128) :
    (ExecutorCall.trivialEncrypt 5 .uint8).preimage sampleConfig.deployment seed =
        (ExecutorCall.trivialEncrypt 5 .uint8).preimage sampleConfig.deployment 0 ∧
      (ExecutorCall.unary .fheNeg sharedHandle).preimage sampleConfig.deployment seed =
        (ExecutorCall.unary .fheNeg sharedHandle).preimage sampleConfig.deployment 0 :=
  ⟨rfl, rfl⟩

/-- The two operations of the run. -/
theorem ran_negatingRun {ctx : Context} {call : ExecutorCall}
    {past : List (HostCall sampleConfig.deployment)}
    (hran : Ran negatingRun (.executor ctx call) past) : ctx = sampleContext 10 ∧
      ((call = .trivialEncrypt 5 .uint8 ∧ past = []) ∨ (call = .unary .fheNeg sharedHandle ∧
        past = [.executor (sampleContext 10) (.trivialEncrypt 5 .uint8)])) := by
  rw [negatingRun, ran_cons, ran_cons] at hran
  rcases hran with ⟨heq, rfl⟩ | ⟨heq, rfl⟩ | hran
  · cases heq
    exact ⟨rfl, .inr ⟨rfl, rfl⟩⟩
  · cases heq
    exact ⟨rfl, .inl ⟨rfl, rfl⟩⟩
  · simp at hran

theorem touched_negatingRun :
    Touched sampleConfig negatingRun ⊆ {(sharedHandle, 10), (negatedHandle, 10)} := by
  rintro ⟨h, a⟩ ⟨i, past, hran, htouch⟩
  have hexecutor : ∃ ctx call, i = .executor ctx call := by
    rw [negatingRun, ran_cons, ran_cons] at hran
    rcases hran with ⟨rfl, -⟩ | ⟨rfl, -⟩ | hran
    · exact ⟨_, _, rfl⟩
    · exact ⟨_, _, rfl⟩
    · simp at hran
  obtain ⟨ctx, call, rfl⟩ := hexecutor
  obtain ⟨rfl, ⟨rfl, rfl⟩ | ⟨rfl, rfl⟩⟩ := ran_negatingRun hran
  · obtain ⟨rfl, hmem | ⟨event, s', hok⟩⟩ := htouch
    · simp [ExecutorCall.operands] at hmem
    · obtain ⟨type, htype, hresult⟩ := result_eq_handleOf rfl hok
      cases htype
      rw [(preimage_negatingRun _).1] at hresult
      exact .inl (congrArg (·, _) hresult)
  · obtain ⟨rfl, hmem | ⟨event, s', hok⟩⟩ := htouch
    · exact .inl (congrArg (·, _) (List.mem_singleton.mp hmem))
    · obtain ⟨type, htype, hresult⟩ := result_eq_handleOf rfl hok
      have huint8 : typeOf sharedHandle = some .uint8 := typeOf_handleOf _ _ _
      obtain rfl : .uint8 = type := Option.some.inj (huint8.symm.trans htype)
      rw [(preimage_negatingRun _).2] at hresult
      exact .inr (congrArg (·, _) hresult)

theorem slotsApart_negatingRun : SlotsApart sampleConfig negatingRun ∅ := by
  obtain ⟨-, -, hne, hshared, hnegated⟩ := negatingRun_facts
  have hsub : Touched sampleConfig negatingRun ∪ ∅ ⊆ {(sharedHandle, 10), (negatedHandle, 10)} := by
    rw [Set.union_empty]
    exact touched_negatingRun
  constructor
  · refine Set.InjOn.mono hsub ?_
    rintro p (rfl | rfl) q (rfl | rfl) heq
    · rfl
    · exact absurd heq hne
    · exact absurd heq.symm hne
    · rfl
  · intro p hp
    rcases hsub hp with rfl | rfl
    · exact hshared
    · exact hnegated

theorem descriptionsApart_negatingRun : DescriptionsApart sampleConfig negatingRun := by
  intro ctx call past ctx' call' past' hran hran' _ _ hsame
  have hne := negatingRun_facts.2.1
  obtain ⟨-, ⟨rfl, -⟩ | ⟨rfl, -⟩⟩ := ran_negatingRun hran
  · rw [(preimage_negatingRun _).1] at hsame ⊢
    obtain ⟨-, ⟨rfl, -⟩ | ⟨rfl, -⟩⟩ := ran_negatingRun hran'
    · exact (preimage_negatingRun _).1.symm
    · rw [(preimage_negatingRun _).2] at hsame
      exact absurd hsame hne
  · rw [(preimage_negatingRun _).2] at hsame ⊢
    obtain ⟨-, ⟨rfl, -⟩ | ⟨rfl, -⟩⟩ := ran_negatingRun hran'
    · rw [(preimage_negatingRun _).1] at hsame
      exact absurd hsame.symm hne
    · exact (preimage_negatingRun _).2.symm

theorem negatingLogs_inOrder :
    InDependenceOrder {handle | IsVerified sampleConfig negatingRun handle} negatingLogs :=
  emittedEvents_inOrder sampleConfig negatingRun slotsApart_negatingRun negatingLogs
    negatingRun_facts.1.symm

theorem emitsEvent_negatingRun {event : TfheEvent} :
    EmitsEvent sampleConfig negatingRun event ↔
      event = .trivialEncrypt 10 5 .uint8 sharedHandle ∨
        event = .unary .fheNeg 10 sharedHandle negatedHandle := by
  rw [← mem_emittedEvents, negatingRun_facts.1]
  simp [negatingLogs]

theorem emitsEvent_of_mem_negatingLogs (log : LogTfhe) (hlog : log ∈ negatingLogs) :
    EmitsEvent sampleConfig negatingRun log.event := by
  rw [← mem_emittedEvents, negatingRun_facts.1]
  exact List.mem_map_of_mem hlog

theorem fits_negatingRun (event : TfheEvent) (h : EmitsEvent sampleConfig negatingRun event) :
    event.Fits := by
  rcases emitsEvent_negatingRun.mp h with rfl | rfl
  · exact (by decide : 5 < 2 ^ FheType.uint8.numBits)
  · trivial

/-- The events tell that 5 is negated. -/
theorem text_negatedHandle {clear : ClearTexts}
    (hclear : ∀ event, EmitsEvent sampleConfig negatingRun event → clear.Evaluates event) :
    clear.text negatedHandle = 251 := by
  have hshared : clear.text sharedHandle = 5 :=
    hclear _ (emitsEvent_negatingRun.mpr (.inl rfl)) 5 rfl
  have hnegated := hclear _ (emitsEvent_negatingRun.mpr (.inr rfl)) _ rfl
  have hbits : resultBits negatedHandle = 8 := resultBits_eq (typeOf_handleOf _ _ _)
  rw [hbits, hshared] at hnegated
  exact hnegated

/-- Inputs that are all zero. -/
def zeroTexts : ClearTexts := ⟨fun _ => 0, fun _ _ _ => Nat.two_pow_pos _⟩

/-- The negation of 5 decrypts to 251. -/
theorem negatingLogs_decrypt : ∃ store t c,
    replay exactLibrary 1 0 (fun _ => none) negatingLogs = .ok store ∧
      store (wordBytes negatedHandle) = some (.enc t c) ∧ cutDecrypt t c = 251 := by
  obtain ⟨clear, -, hclear, hreplay⟩ := replay_decrypts homomorphic_exactLibrary sampleConfig
    negatingRun slotsApart_negatingRun descriptionsApart_negatingRun fits_negatingRun zeroTexts
  obtain ⟨store, hok, hdecrypt⟩ := hreplay 1 0 (fun _ => none) negatingLogs
    (by intro _ _ h; cases h) (by intro _ h; cases h)
    emitsEvent_of_mem_negatingLogs
    (by
      refine ⟨by simp [operandsOf], ?_, trivial⟩
      intro handle hhandle
      rw [List.mem_singleton.mp hhandle]
      exact .inr rfl)
  obtain ⟨t, c, hget, -, htext⟩ :=
    hdecrypt _ (List.mem_cons_of_mem _ List.mem_cons_self) negatedHandle rfl
  exact ⟨store, t, c, hok, hget, htext.trans (text_negatedHandle hclear)⟩

end Fhevm.Listener
