import Fhevm.Host.ClearText
import Fhevm.Host.Handles
import Fhevm.Host.Permissions

/-!
# Clear texts for all handles of a run

The handle of a result is the hash of its operation, and the operands of an operation were
returned before. So handles can be given clear texts one after the other, inputs by their owners
and random numbers as they are drawn, and then every event of the run tells the clear text that
its result has.

## Main definitions

* `EmitsEvent`, `IsResult` — the events of a run, and the handles that its operations compute.
* `TfheEvent.Fits` — numbers that are given in clear are values of their types.
* `ClearTexts.Respects` — the clear text of a result is the computed or the drawn one.
* `clearTexts_of_run` — such clear texts exist for every run.
-/

namespace Fhevm.Host

open Foundation Contract FHEVMExecutor

/-! ## Events and their clear texts -/

/-- Numbers that are given in clear are values of the type that they are used at. -/
def TfheEvent.Fits : TfheEvent → Prop
  | .binary _ _ lhs rhs scalarByte _ => scalarByte = 0x01 → rhs.toNat < 2 ^ resultBits lhs
  | .trivialEncrypt _ pt toType _ => pt.toNat < 2 ^ toType.numBits
  | _ => True

/-- The random number of each type, seed and bound. It is a value of the type. -/
structure RandomTexts where
  text : FheType → BitVec 128 → Option (BitVec 256) → Nat
  lt : ∀ t ∈ boolAndUint8To256, ∀ seed upperBound, text t seed upperBound < 2 ^ t.numBits

/-- The number that is drawn for an event. -/
def TfheEvent.drawnText (random : RandomTexts) : TfheEvent → Option Nat
  | .fheRand _ randType seed _ => some (random.text randType seed none)
  | .fheRandBounded _ upperBound randType seed _ =>
    some (random.text randType seed (some upperBound))
  | _ => none

/-- The clear text of the result is the one that the event gives it, or the one that is drawn. -/
structure ClearTexts.Respects (clear : ClearTexts) (random : RandomTexts) (event : TfheEvent) :
    Prop where
  evaluates : clear.Evaluates event
  drawn : ∀ n, event.drawnText random = some n → clear.text event.result = n

section Texts

variable {random : RandomTexts} {caller : Address} {seed : BitVec 128} {result : Bytes32}
  {call : ExecutorCall} {type : FheType}

@[simp] theorem result_event (call : ExecutorCall) (caller : Address) (seed : BitVec 128)
    (result : Bytes32) : (call.event caller seed result).result = result := by
  cases call <;> rfl

/-- Results fit their types. -/
theorem BinaryOperator.clearText_lt (op : BinaryOperator) {t : FheType} {a b : Nat}
    (ha : a < 2 ^ t.numBits) (hb : b < 2 ^ t.numBits) :
    op.clearText (op.resultType t).numBits a b < 2 ^ (op.resultType t).numBits := by
  have hmod : ∀ n, n % 2 ^ t.numBits < 2 ^ t.numBits := fun n => Nat.mod_lt _ (Nat.two_pow_pos _)
  have hbool : ∀ (p : Prop) [Decidable p], (if p then 1 else 0) < 2 ^ FheType.bool.numBits := by
    intro p _
    split_ifs <;> norm_num [FheType.numBits]
  cases op with
  | fheSub =>
    simp only [clearText, resultType, id]
    split_ifs
    · exact hmod _
    · exact hmod _
  | fheDiv => exact (Nat.div_le_self a b).trans_lt ha
  | fheRem => exact (Nat.mod_le a b).trans_lt ha
  | fheEq | fheNe | fheGe | fheGt | fheLe | fheLt => exact hbool _
  | fheMin | fheMax =>
    simp only [clearText, resultType, id]
    split_ifs
    · exact ha
    · exact hb
  | _ => exact hmod _

/-- The clear text of a result is a value of its type. -/
theorem clearText_lt (htyped : WellTyped call) (hfits : (call.event caller seed result).Fits)
    (htype : call.resultType = some type) (hresult : typeOf result = some type) (clear : ClearTexts)
    {clearText : Nat}
    (h : (call.event caller seed result).clearText clear.text = some clearText) :
    clearText < 2 ^ type.numBits := by
  cases call with
  | binary op lhs rhs scalarByte =>
    obtain ⟨t, -, hlhs, hscalar, -⟩ := htyped
    rw [ExecutorCall.resultType, hlhs, Option.map_some, Option.some.injEq] at htype
    subst htype
    simp only [ExecutorCall.event, TfheEvent.clearText, resultBits_eq hresult,
      Option.some.injEq] at h
    subst h
    refine BinaryOperator.clearText_lt op (clear.lt lhs t hlhs) ?_
    split_ifs with hone
    · have hrhs : rhs.toNat < 2 ^ resultBits lhs := hfits hone
      rwa [resultBits_eq hlhs] at hrhs
    · obtain ⟨-, hrhs⟩ | hone' := hscalar
      · exact clear.lt rhs t hrhs
      · exact absurd hone' hone
  | unary op ct =>
    have hct : typeOf ct = some type := htype
    cases op with
    | fheNeg =>
      cases h
      rw [resultBits_eq hresult]
      exact Nat.mod_lt _ (Nat.two_pow_pos _)
    | fheNot =>
      cases h
      rw [resultBits_eq hresult]
      exact (Nat.sub_le _ _).trans_lt (Nat.sub_lt (Nat.two_pow_pos _) one_pos)
  | fheIfThenElse control ifTrue ifFalse =>
    obtain ⟨-, t, -, htrue, hfalse⟩ := htyped
    obtain rfl : t = type := Option.some.inj (htrue.symm.trans htype)
    cases h
    split_ifs
    · exact clear.lt ifTrue t htrue
    · exact clear.lt ifFalse t hfalse
  | cast ct toType =>
    cases htype
    cases h
    exact Nat.mod_lt _ (Nat.two_pow_pos _)
  | trivialEncrypt pt toType =>
    cases htype
    cases h
    exact hfits
  | fheRand randType => cases h
  | fheRandBounded upperBound randType => cases h
  | verifyInput inputHandle userAddress inputProof inputType => cases h

/-- An event reads the clear texts of the operands of its call. -/
theorem clearText_congr (text text' : Bytes32 → Nat) (caller : Address) (seed : BitVec 128)
    (result : Bytes32) (h : ∀ operand ∈ call.operands, text operand = text' operand) :
    (call.event caller seed result).clearText text =
      (call.event caller seed result).clearText text' := by
  cases call with
  | binary op lhs rhs scalarByte =>
    by_cases hscalar : scalarByte = 0x01
    · simp only [ExecutorCall.operands, hscalar, if_true, List.mem_singleton, forall_eq] at h
      simp only [ExecutorCall.event, TfheEvent.clearText, hscalar, if_true, h]
    · simp only [ExecutorCall.operands, hscalar, if_false, List.mem_cons, List.not_mem_nil,
        or_false, forall_eq_or_imp, forall_eq] at h
      simp only [ExecutorCall.event, TfheEvent.clearText, hscalar, if_false, h.1, h.2]
  | unary op ct =>
    simp only [ExecutorCall.event, TfheEvent.clearText, h ct (by simp [ExecutorCall.operands])]
  | fheIfThenElse control ifTrue ifFalse =>
    simp only [ExecutorCall.event, TfheEvent.clearText, h control (by simp [ExecutorCall.operands]),
      h ifTrue (by simp [ExecutorCall.operands]), h ifFalse (by simp [ExecutorCall.operands])]
  | cast ct toType =>
    simp only [ExecutorCall.event, TfheEvent.clearText, h ct (by simp [ExecutorCall.operands])]
  | _ => rfl

/-- Events of one operation tell the same clear text of the same result. -/
theorem respects_of_operation {call' : ExecutorCall} {caller' : Address} {seed' : BitVec 128}
    (hsame : call.operation seed = call'.operation seed') {clear : ClearTexts}
    (h : clear.Respects random (call.event caller seed result)) :
    clear.Respects random (call'.event caller' seed' result) := by
  have hcall : call = call' := by
    rw [← operation_fst call seed, hsame, operation_fst]
  subst hcall
  obtain ⟨hevaluates, hdrawn⟩ := h
  cases call with
  | fheRand randType =>
    cases hsame
    exact ⟨nofun, hdrawn⟩
  | fheRandBounded upperBound randType =>
    cases hsame
    exact ⟨nofun, hdrawn⟩
  | _ => exact ⟨hevaluates, nofun⟩

end Texts

/-! ## Handles of a run -/

variable {K : HostConfig}

/-- An operation of the run emitted the event. -/
def EmitsEvent (K : HostConfig) (calls : List (HostCall K.deployment)) (event : TfheEvent) : Prop :=
  ∃ ctx call past result s', Ran calls (.executor ctx call) past ∧
    executorCall K.deployment K.signatures ctx (hostAfter K past) call = .ok ((result, event), s')

/-- An operation of the run, other than the verification of an input, returned the handle. -/
def IsResult (K : HostConfig) (calls : List (HostCall K.deployment)) (handle : Bytes32) : Prop :=
  ∃ ctx call past, Ran calls (.executor ctx call) past ∧ call.isInput = false ∧
    Returns K past ctx call handle

/-- The truncated hash has no collision on the descriptions of the operations of the run. -/
def DescriptionsApart (K : HostConfig) (calls : List (HostCall K.deployment)) : Prop :=
  ∀ ctx call past ctx' call' past', Ran calls (.executor ctx call) past →
    Ran calls (.executor ctx' call') past' → call.isInput = false → call'.isInput = false →
      TruncatedHashDiffers K.deployment
        (call.preimage K.deployment (seedOf K.deployment ctx (hostAfter K past).counterRand))
        (call'.preimage K.deployment (seedOf K.deployment ctx' (hostAfter K past').counterRand))

section Handles

variable {calls past : List (HostCall K.deployment)} {ctx : Context} {call : ExecutorCall}
  {result : Bytes32}

theorem IsResult.mono {handle : Bytes32} (h : IsResult K past handle) (hs : past <:+ calls) :
    IsResult K calls handle := by
  obtain ⟨ctx, call, before, hran, hrest⟩ := h
  exact ⟨ctx, call, before, hran.of_suffix hs, hrest⟩

theorem typeOf_handleOf (D : Deployment) (preimage : Bytes) (type : FheType) :
    typeOf (handleOf D preimage type) = some type := typeOf_appendMetadataToPrehandle _ _ _

theorem indexHandle_handleOf (D : Deployment) (preimage : Bytes) (type : FheType) :
    indexHandle (handleOf D preimage type) = 0xff := by
  rw [indexHandle_eq, handleOf, index_appendMetadataToPrehandle]
  rfl

theorem IsResult.indexHandle_eq {handle : Bytes32} (h : IsResult K calls handle) :
    indexHandle handle = 0xff := by
  obtain ⟨ctx, call, past, -, hcall, event, s', hok⟩ := h
  obtain ⟨type, -, rfl⟩ := result_eq_handleOf hcall hok
  exact indexHandle_handleOf _ _ _

/-- The operands of an operation were returned before it. -/
theorem operand_returned (hslots : SlotsApart K calls ∅)
    (hran : Ran calls (.executor ctx call) past) (hreturns : Returns K past ctx call result)
    {operand : Bytes32} (hoperand : operand ∈ call.operands) :
    ∃ ctx' call' past', Ran past (.executor ctx' call') past' ∧
      Returns K past' ctx' call' operand := by
  have htouch : (operand, ctx.sender) ∈ Touched K calls := ⟨_, _, hran, rfl, .inl hoperand⟩
  have hlarge : ∀ p ∈ Touched K calls, calls.length + 1 ≤ (slotOf K p).toNat := fun p hp =>
    hslots.large p (.inl hp)
  have hfits : calls.length + 1 ≤ 2 ^ 256 :=
    (hlarge _ htouch).trans (slotOf K (operand, ctx.sender)).isLt.le
  have hinj : Set.InjOn (slotOf K) (Touched K calls) := hslots.injOn.mono Set.subset_union_left
  have htraced := traced hfits hinj hlarge (Nat.lt_succ_of_le hran.past_suffix.length_le)
    (Touched.mono hran.past_suffix)
  obtain ⟨event, s', hok⟩ := hreturns
  exact (htraced.reaches hinj hlarge htouch ((executorCall_effect hok).2 operand hoperand)).returned

/-- An operand is no handle that is computed first by the operation or after it. -/
theorem operand_ne (hslots : SlotsApart K calls ∅) (hran : Ran calls (.executor ctx call) past)
    (hreturns : Returns K past ctx call result) {operand handle : Bytes32}
    (hoperand : operand ∈ call.operands) (hindex : indexHandle handle = 0xff)
    (hnew : ¬ IsResult K past handle) : operand ≠ handle := by
  rintro rfl
  obtain ⟨ctx', call', past', hran', event, s', hok⟩ :=
    operand_returned hslots hran hreturns hoperand
  cases hinput : call'.isInput with
  | false => exact hnew ⟨ctx', call', past', hran', hinput, event, s', hok⟩
  | true =>
    cases call' with
    | verifyInput inputHandle userAddress inputProof inputType =>
      obtain ⟨-, rfl, -, -, -, -, -, hverify⟩ := verifyInput_ok hok
      obtain ⟨-, -, hle⟩ := verifyInput_result hverify
      rw [hindex] at hle
      exact absurd hle (by decide)
    | _ => cases hinput

/-- Two operations with one result are the same. -/
theorem operation_eq (hapart : DescriptionsApart K calls) {ctx' : Context} {call' : ExecutorCall}
    {past' : List (HostCall K.deployment)} (hran : Ran calls (.executor ctx call) past)
    (hran' : Ran calls (.executor ctx' call') past') (hcall : call.isInput = false)
    (hcall' : call'.isInput = false) (hreturns : Returns K past ctx call result)
    (hreturns' : Returns K past' ctx' call' result) :
    call.operation (seedOf K.deployment ctx (hostAfter K past).counterRand) =
      call'.operation (seedOf K.deployment ctx' (hostAfter K past').counterRand) := by
  obtain ⟨event, s', hok⟩ := hreturns
  obtain ⟨event', s'', hok'⟩ := hreturns'
  obtain ⟨type, -, hresult⟩ := result_eq_handleOf hcall hok
  obtain ⟨type', -, hresult'⟩ := result_eq_handleOf hcall' hok'
  refine operation_of_preimage hcall hcall' (hapart ctx call past ctx' call' past' hran hran' hcall
    hcall' ?_)
  rw [← handleOf_hash _ _ type, ← handleOf_hash _ _ type', ← hresult, ← hresult']

end Handles

/-! ## Every run -/

/-- The clear texts with another one for a handle. -/
def ClearTexts.set (clear : ClearTexts) (handle : Bytes32) (clearText : Nat)
    (hlt : ∀ t, typeOf handle = some t → clearText < 2 ^ t.numBits) : ClearTexts where
  text := Function.update clear.text handle clearText
  lt := by
    intro handle' t ht
    by_cases heq : handle' = handle
    · subst heq
      rw [Function.update_self]
      exact hlt t ht
    · rw [Function.update_of_ne heq]
      exact clear.lt handle' t ht

section Runs

variable {calls : List (HostCall K.deployment)} {random : RandomTexts}

/-- The event of an operation is respected after its result was set. -/
theorem respects_set {call : ExecutorCall} {type : FheType} (hcall : call.isInput = false)
    (htyped : WellTyped call) (htype : call.resultType = some type) {caller : Address}
    {seed : BitVec 128} {result : Bytes32} (hresult : typeOf result = some type)
    (hfits : (call.event caller seed result).Fits) (clear : ClearTexts)
    (hnew : ∀ operand ∈ call.operands, operand ≠ result) :
    ∃ clearText hlt, (clear.set result clearText hlt).Respects random
      (call.event caller seed result) := by
  have hlt : ∀ {n : Nat}, n < 2 ^ type.numBits →
      ∀ t, typeOf result = some t → n < 2 ^ t.numBits := by
    intro n hn t ht
    rw [hresult, Option.some.injEq] at ht
    exact ht ▸ hn
  have hset : ∀ n h, (clear.set result n h).text result = n := fun _ _ => Function.update_self ..
  cases hcomputed : (call.event caller seed result).clearText clear.text with
  | some n =>
    have hn := clearText_lt htyped hfits htype hresult clear hcomputed
    refine ⟨n, hlt hn, ?_, ?_⟩
    · intro m hm
      have hsame := clearText_congr (clear.set result n (hlt hn)).text clear.text caller seed result
        fun operand hoperand => Function.update_of_ne (hnew operand hoperand) _ _
      rw [hsame, hcomputed, Option.some.injEq] at hm
      rw [result_event, hset, hm]
    · intro m hm
      cases call <;> cases hm <;> cases hcomputed
  | none =>
    -- only random numbers are left
    cases call with
    | fheRand randType =>
      cases htype
      refine ⟨random.text type seed none, hlt (random.lt type htyped _ _), nofun, ?_⟩
      rintro _ ⟨⟩
      exact hset _ _
    | fheRandBounded upperBound randType =>
      cases htype
      have haccepted : type ∈ boolAndUint8To256 := List.mem_cons_of_mem _ htyped.1
      refine ⟨random.text type seed (some upperBound), hlt (random.lt type haccepted _ _),
        nofun, ?_⟩
      rintro _ ⟨⟩
      exact hset _ _
    | verifyInput inputHandle userAddress inputProof inputType => cases hcall
    | _ => cases hcomputed

/-- The events of the calls made so far stay respected when a new handle is set. -/
theorem ClearTexts.Respects.set (hslots : SlotsApart K calls ∅)
    {past : List (HostCall K.deployment)} (hs : past <:+ calls) {event : TfheEvent}
    (hemits : EmitsEvent K past event) {clear : ClearTexts} (h : clear.Respects random event)
    {handle : Bytes32} (hindex : indexHandle handle = 0xff)
    (hnew : ¬ IsResult K past handle) {clearText : Nat}
    (hlt : ∀ t, typeOf handle = some t → clearText < 2 ^ t.numBits) :
    (clear.set handle clearText hlt).Respects random event := by
  obtain ⟨ctx, call, before, result, s', hran, hok⟩ := hemits
  cases hinput : call.isInput with
  | true =>
    cases call with
    | verifyInput inputHandle userAddress inputProof inputType =>
      obtain ⟨-, -, rfl, -⟩ := verifyInput_ok hok
      exact ⟨nofun, nofun⟩
    | _ => cases hinput
  | false =>
    obtain ⟨-, rfl, -⟩ := executorCall_ok hinput hok
    have hne : result ≠ handle := by
      rintro rfl
      exact hnew ⟨ctx, call, before, hran, hinput, _, s', hok⟩
    have hother : ∀ operand ∈ call.operands,
        (clear.set handle clearText hlt).text operand = clear.text operand := by
      intro operand hoperand
      have hnot : ¬ IsResult K before handle := fun hc => hnew (hc.mono hran.past_suffix)
      exact Function.update_of_ne (operand_ne hslots (hran.of_suffix hs) ⟨_, s', hok⟩ hoperand
        hindex hnot) _ _
    have hsame := clearText_congr _ _ ctx.sender
      (seedOf K.deployment ctx (hostAfter K before).counterRand) result hother
    have hkept : (clear.set handle clearText hlt).text result = clear.text result :=
      Function.update_of_ne hne _ _
    refine ⟨?_, ?_⟩
    · intro n hn
      rw [hsame] at hn
      have hold := h.evaluates n hn
      rw [result_event] at hold ⊢
      exact hkept.trans hold
    · intro n hn
      have hold := h.drawn n hn
      rw [result_event] at hold ⊢
      exact hkept.trans hold

/-- The calls of a run are given clear texts one after the other. A result that was computed before
is the result of the same operation. -/
theorem exists_clearTexts_suffix (hslots : SlotsApart K calls ∅)
    (hapart : DescriptionsApart K calls) (hfits : ∀ event, EmitsEvent K calls event → event.Fits)
    (given : ClearTexts) {past : List (HostCall K.deployment)} (hs : past <:+ calls) :
    ∃ clear : ClearTexts, (∀ handle, ¬ IsResult K past handle →
        clear.text handle = given.text handle) ∧
      ∀ event, EmitsEvent K past event → clear.Respects random event := by
  induction past with
  | nil =>
    refine ⟨given, fun _ _ => rfl, ?_⟩
    rintro event ⟨ctx, call, before, result, s', hran, -⟩
    exact absurd hran not_ran_nil
  | cons i past ih =>
    have hpast : past <:+ calls := (List.suffix_cons i past).trans hs
    obtain ⟨clear, hgiven, hrespects⟩ := ih hpast
    have hkept : ∀ handle, ¬ IsResult K (i :: past) handle →
        clear.text handle = given.text handle := fun handle hnot =>
      hgiven handle fun hc => hnot (hc.mono (List.suffix_cons i past))
    by_cases hcomputes : ∃ ctx call result event s', i = .executor ctx call ∧ call.isInput = false ∧
        executorCall K.deployment K.signatures ctx (hostAfter K past) call =
          .ok ((result, event), s')
    · obtain ⟨ctx, call, result, event, s', rfl, hcall, hok⟩ := hcomputes
      have hran : Ran calls (.executor ctx call) past := hs
      obtain ⟨htyped, rfl, -⟩ := executorCall_ok hcall hok
      obtain ⟨type, htype, hhandle⟩ := result_eq_handleOf hcall hok
      -- the new event is that of this call
      have hsplit : ∀ {clear' : ClearTexts},
          clear'.Respects random (call.event ctx.sender
            (seedOf K.deployment ctx (hostAfter K past).counterRand) result) →
          (∀ event, EmitsEvent K past event → clear'.Respects random event) →
          ∀ event, EmitsEvent K (.executor ctx call :: past) event →
            clear'.Respects random event := by
        rintro clear' hnow hbefore event ⟨ctx', call', past', result', s'', hran', hok'⟩
        rcases ran_cons.mp hran' with ⟨heq, rfl⟩ | hran'
        · cases heq
          cases hok.symm.trans hok'
          exact hnow
        · exact hbefore event ⟨ctx', call', past', result', s'', hran', hok'⟩
      by_cases hold : IsResult K past result
      · obtain ⟨ctx', call', past', hran', hcall', event', s'', hok'⟩ := hold
        obtain ⟨-, rfl, -⟩ := executorCall_ok hcall' hok'
        have hsame := operation_eq hapart (hran'.of_suffix hpast) hran hcall' hcall
          ⟨_, s'', hok'⟩ ⟨_, s', hok⟩
        have hbefore := hrespects _ ⟨ctx', call', past', result, s'', hran', hok'⟩
        exact ⟨clear, hkept, hsplit (respects_of_operation hsame hbefore) hrespects⟩
      · have hindex : indexHandle result = 0xff := hhandle ▸ indexHandle_handleOf _ _ _
        have htypeOf : typeOf result = some type := hhandle ▸ typeOf_handleOf _ _ _
        obtain ⟨clearText, hlt, hnow⟩ := respects_set hcall htyped htype htypeOf
          (hfits _ ⟨ctx, call, past, result, s', hran, hok⟩) clear
          fun operand hoperand => operand_ne hslots hran ⟨_, s', hok⟩ hoperand hindex hold
        refine ⟨clear.set result clearText hlt, ?_, hsplit hnow fun event hemits =>
          (hrespects event hemits).set hslots hpast hemits hindex hold hlt⟩
        intro handle hnot
        have hne : handle ≠ result := by
          rintro rfl
          exact hnot ⟨ctx, call, past, Ran.head _ _, hcall, _, s', hok⟩
        exact (Function.update_of_ne hne _ _).trans (hkept handle hnot)
    · refine ⟨clear, hkept, ?_⟩
      rintro event ⟨ctx, call, before, result, s', hran, hok⟩
      rcases ran_cons.mp hran with ⟨rfl, rfl⟩ | hran
      · cases hinput : call.isInput with
        | false => exact absurd ⟨ctx, call, result, event, s', rfl, hinput, hok⟩ hcomputes
        | true =>
          cases call with
          | verifyInput inputHandle userAddress inputProof inputType =>
            obtain ⟨-, -, rfl, -⟩ := verifyInput_ok hok
            exact ⟨nofun, nofun⟩
          | _ => cases hinput
      · exact hrespects event ⟨ctx, call, before, result, s', hran, hok⟩

variable (random) in
/-- Clear texts that respect all events of a run, and are the given ones for inputs. -/
theorem clearTexts_of_run (hslots : SlotsApart K calls ∅) (hapart : DescriptionsApart K calls)
    (hfits : ∀ event, EmitsEvent K calls event → event.Fits) (given : ClearTexts) :
    ∃ clear : ClearTexts,
      (∀ handle, indexHandle handle ≠ 0xff → clear.text handle = given.text handle) ∧
      ∀ event, EmitsEvent K calls event → clear.Respects random event := by
  obtain ⟨clear, hgiven, hrespects⟩ := exists_clearTexts_suffix hslots hapart hfits given
    List.suffix_rfl
  exact ⟨clear, fun handle hne => hgiven handle fun hc => hne hc.indexHandle_eq, hrespects⟩

end Runs

end Fhevm.Host
