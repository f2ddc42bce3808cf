import Fhevm.Host.Progress
import Fhevm.LibrarySolidity.Meaning

/-!
# Calls of the executor by the library

A handle stands for a value if it is of the right type, the contract may use it, and its clear text
is the value. Each call of the executor that the library makes on such handles is refused for its
price or because of a pause, or returns a handle that stands for the value of the operation.

## Main definitions

* `Holds` — a handle stands for a value.
* `Keeps` — what no later call takes back.
* `Yields` — a call returns a handle that stands for a value.
-/

namespace Fhevm.LibrarySolidity

open Foundation Host FHEVMExecutor

/-! ## Handles that stand for values -/

section Handles

/-- The slot of the permission of the contract, which does not count the permissions. -/
def HasSlot (E : Execution) (handle : Bytes32) : Prop :=
  permissionKey E.deployment handle E.context.sender ≠ 0

/-- The clear text of every result is the one that its event gives it. -/
def Evaluated (clear : ClearTexts) (s : LibraryState) : Prop :=
  ∀ event ∈ s.events, clear.Evaluates event

/-- The handle is of the type, the contract may use it, and its clear text is the value. -/
structure Holds (E : Execution) (clear : ClearTexts) (s : LibraryState) (t : FheType) (value : Nat)
    (handle : Bytes32) : Prop where
  initialized : handle ≠ 0
  type : typeOf handle = some t
  allowed : isAllowed E.deployment handle E.context.sender s.host.acl = true
  slot : HasSlot E handle
  value : Evaluated clear s → clear.text handle = value

/-- Permissions and events of one state are there in another one. -/
structure Keeps (E : Execution) (s s' : LibraryState) : Prop where
  allowed : ∀ handle, HasSlot E handle →
    isAllowed E.deployment handle E.context.sender s.host.acl = true →
      isAllowed E.deployment handle E.context.sender s'.host.acl = true
  events : s.events ⊆ s'.events

/-- The result of a call stands for the value, and what was there before is kept. -/
structure Yields (E : Execution) (clear : ClearTexts) (s : LibraryState) (t : FheType) (value : Nat)
    (r : Bytes32 × LibraryState) : Prop where
  keeps : Keeps E s r.2
  holds : Holds E clear r.2 t value r.1

variable {E : Execution} {clear : ClearTexts} {s s' s'' : LibraryState} {t : FheType}
  {value value' : Nat} {handle : Bytes32}

theorem Keeps.refl : Keeps E s s := ⟨fun _ _ => id, List.Subset.refl _⟩

theorem Keeps.trans (h : Keeps E s s') (h' : Keeps E s' s'') : Keeps E s s'' where
  allowed handle hslot hallowed := h'.allowed handle hslot (h.allowed handle hslot hallowed)
  events := List.Subset.trans h.events h'.events

theorem Keeps.evaluated (h : Keeps E s s') (hs' : Evaluated clear s') : Evaluated clear s :=
  fun event hevent => hs' event (h.events hevent)

theorem Holds.mono (h : Holds E clear s t value handle) (hkeeps : Keeps E s s') :
    Holds E clear s' t value handle where
  initialized := h.initialized
  type := h.type
  allowed := hkeeps.allowed handle h.slot h.allowed
  slot := h.slot
  value hs' := h.value (hkeeps.evaluated hs')

theorem Holds.lt (h : Holds E clear s t value handle) (hs : Evaluated clear s) :
    value < 2 ^ t.numBits :=
  h.value hs ▸ clear.lt handle t h.type

theorem Holds.congr (h : Holds E clear s t value handle) (heq : Evaluated clear s → value = value') :
    Holds E clear s t value' handle :=
  { h with value := fun hs => (h.value hs).trans (heq hs) }

theorem Yields.trans {r : Bytes32 × LibraryState} (h : Keeps E s s')
    (hr : Yields E clear s' t value r) : Yields E clear s t value r :=
  ⟨h.trans hr.keeps, hr.holds⟩

end Handles

/-! ## One call -/

section Calls

variable {E : Execution} {clear : ClearTexts} {s : LibraryState} {t : FheType} {value : Nat}

/-- Computed handles have slots. -/
def SlotsFree (E : Execution) : Prop :=
  ∀ preimage type, HasSlot E (handleOf E.deployment preimage type)

/-- The host after an operation has the permissions of before and one for the result. -/
theorem allowed_of_performs {c : Computation} {result : Bytes32} {host : HostState}
    (hperforms : Performs E.deployment E.context.sender c s.host result host)
    (hslot : HasSlot E result) :
    isAllowed E.deployment result E.context.sender host.acl = true ∧
      ∀ handle, HasSlot E handle →
        isAllowed E.deployment handle E.context.sender s.host.acl = true →
          isAllowed E.deployment handle E.context.sender host.acl = true := by
  rw [hperforms.acl_eq]
  constructor
  · rw [isAllowed, Bool.or_eq_true]
    exact .inl (TransientSet.contains_record_self hslot)
  · intro handle hhandle hallowed
    rw [isAllowed, Bool.or_eq_true] at hallowed ⊢
    exact hallowed.imp_left (TransientSet.contains_record hslot hhandle)

theorem result_event (call : ExecutorCall) (caller : Address) (seed : BitVec 128)
    (result : Bytes32) : (call.event caller seed result).result = result := by
  cases call <;> rfl

/-- A call with operands that the contract may use, where the clear text of its event is known. -/
theorem callExecutor_post {call : ExecutorCall} (hslots : SlotsFree E)
    (hcall : call.isOperator = true) (hwell : WellTyped call)
    (hallowed : ∀ operand ∈ call.operands,
      isAllowed E.deployment operand E.context.sender s.host.acl = true)
    (htype : call.resultType = some t)
    (hvalue : ∀ seed result, typeOf result = some t → Evaluated clear s →
      (call.event E.context.sender seed result).clearText clear.text = some value) :
    Post (Yields E clear s t value) HostError.IsRefusal (callExecutor E call s) := by
  have hinput : call.isInput = false := by cases call <;> first | rfl | cases hcall
  apply Post.bind (Q := fun r => executorCall E.deployment E.signatures E.context s.host call = .ok r)
  · exact Post.intro (fun _ => id) fun e he => (executorCall_post hcall hwell hallowed).of_error he
  rintro ⟨⟨result, event⟩, host⟩ hok
  obtain ⟨-, hevent, c, hc, hperforms⟩ := executorCall_ok hinput hok
  have hresultType : c.resultType = t := by
    simp only [computation, Option.bind_eq_bind, Option.bind_eq_some_iff, htype] at hc
    obtain ⟨_, ht, _, -, heq⟩ := hc
    cases ht
    cases heq
    rfl
  have hresult : result = handleOf E.deployment c.preimage t := hresultType ▸ hperforms.result_eq
  have hslot : HasSlot E result := hresult ▸ hslots _ _
  have hresultOf : typeOf result = some t := hresult ▸ typeOf_appendMetadataToPrehandle _ _ _
  obtain ⟨hown, hothers⟩ := allowed_of_performs hperforms hslot
  have hkeeps : Keeps E s ⟨host, event :: s.events⟩ := ⟨hothers, List.subset_cons_self _ _⟩
  refine Post.pure ⟨hkeeps, ?_, hresultOf, hown, hslot, ?_⟩
  · exact hresult ▸ appendMetadataToPrehandle_ne_zero _ _ _
  · intro hevaluated
    have htext := hevaluated event List.mem_cons_self
    rw [ClearTexts.Evaluates, hevent] at htext
    rw [← htext value (hvalue _ result hresultOf (hkeeps.evaluated hevaluated)), result_event]

/-! ## The functions of `Impl` -/

theorem trivialEncrypt_yields (hslots : SlotsFree E) (pt : BitVec 256)
    (ht : t ∈ boolAndUint8To160And256) :
    Post (Yields E clear s t pt.toNat) HostError.IsRefusal (Impl.trivialEncrypt E pt t s) :=
  callExecutor_post hslots rfl ht (by simp [ExecutorCall.operands]) rfl fun _ _ _ _ => rfl

theorem cast_yields (hslots : SlotsFree E) {handle : Bytes32} {toType : FheType}
    (h : Holds E clear s t value handle) (ht : t ∈ boolAndUint8To256) (hto : toType ∈ uint8To256)
    (hne : t ≠ toType) :
    Post (Yields E clear s toType (value % 2 ^ toType.numBits)) HostError.IsRefusal
      (Impl.cast E handle toType s) := by
  have hwell : WellTyped (.cast handle toType) := ⟨hto, t, ht, h.type, hne⟩
  apply callExecutor_post hslots rfl hwell
  · simpa [ExecutorCall.operands] using h.allowed
  · rfl
  · intro _ _ _ hs
    simp only [ExecutorCall.event, TfheEvent.clearText, h.value hs]

theorem select_yields (hslots : SlotsFree E) {control ifTrue ifFalse : Bytes32}
    {choice valueTrue valueFalse : Nat} (hcontrol : Holds E clear s .bool choice control)
    (htrue : Holds E clear s t valueTrue ifTrue) (hfalse : Holds E clear s t valueFalse ifFalse)
    (ht : t ∈ boolAndUint8To160And256) :
    Post (Yields E clear s t (if choice = 1 then valueTrue else valueFalse)) HostError.IsRefusal
      (Impl.select E control ifTrue ifFalse s) := by
  have hwell : WellTyped (.fheIfThenElse control ifTrue ifFalse) :=
    ⟨hcontrol.type, t, ht, htrue.type, hfalse.type⟩
  apply callExecutor_post hslots rfl hwell
  · simp only [ExecutorCall.operands, List.mem_cons, List.not_mem_nil, or_false]
    rintro operand (rfl | rfl | rfl)
    · exact hcontrol.allowed
    · exact htrue.allowed
    · exact hfalse.allowed
  · exact htrue.type
  · intro _ _ _ hs
    simp only [ExecutorCall.event, TfheEvent.clearText, hcontrol.value hs, htrue.value hs,
      hfalse.value hs]

theorem operatorNamed_name : ∀ op ∈ ALL_OPERATORS, Impl.operatorNamed op.name = some op := by
  decide +kernel

theorem unary_yields (hslots : SlotsFree E) {op : Operator} {f : UnaryOperator} {handle : Bytes32}
    (hop : op ∈ ALL_OPERATORS) (hf : op.arguments = .unary f) (h : Holds E clear s t value handle)
    (ht : t ∈ f.supportedTypes) :
    Post (Yields E clear s t (op.name.apply fun _ => BitVec.ofNat t.numBits value))
      HostError.IsRefusal (Impl.unary E op.name handle s) := by
  simp only [Impl.unary, operatorNamed_name op hop, hf]
  have hwell : WellTyped (.unary f handle) := ⟨t, ht, h.type⟩
  apply callExecutor_post hslots rfl hwell
  · simpa [ExecutorCall.operands] using h.allowed
  · exact h.type
  · intro _ result hresult hs
    have hlt := h.lt hs
    rw [← unary_clearText hop hf, BitVec.toNat_ofNat, Nat.mod_eq_of_lt hlt]
    simp only [ExecutorCall.event, TfheEvent.clearText, resultBits_eq hresult, h.value hs]

section Binary

variable {op : Operator} {f : BinaryOperator} {lhs rhs : Bytes32} {a b : Nat}

/-- The operands of an operator by position. -/
def twoOperands (n a b : Nat) (i : Nat) : BitVec n := BitVec.ofNat n (if i = 0 then a else b)

theorem clearText_twoOperands {n : Nat} (hop : op ∈ ALL_OPERATORS) (hf : op.arguments = .binary f)
    (ha : a < 2 ^ n) (hb : b < 2 ^ n) : f.clearText n a b = op.name.apply (twoOperands n a b) := by
  have h0 : (twoOperands n a b 0).toNat = a := (BitVec.toNat_ofNat _ _).trans (Nat.mod_eq_of_lt ha)
  have h1 : (twoOperands n a b 1).toNat = b := (BitVec.toNat_ofNat _ _).trans (Nat.mod_eq_of_lt hb)
  rw [← binary_clearText hop hf, h0, h1]

theorem resultType_binary {scalarByte : UInt8} (h : typeOf lhs = some t) :
    (ExecutorCall.binary f lhs rhs scalarByte).resultType = some (f.resultType t) := by
  rw [ExecutorCall.resultType, h, Option.map_some]

/-- Two encrypted operands. -/
theorem binary_yields (hslots : SlotsFree E) (hop : op ∈ ALL_OPERATORS)
    (hf : op.arguments = .binary f) (hencrypted : op.hasEncrypted = true)
    (hscalar : op.hasScalar = true) (ht : t ∈ f.supportedTypes)
    (hlhs : Holds E clear s t a lhs) (hrhs : Holds E clear s t b rhs) :
    Post (Yields E clear s (f.resultType t) (op.name.apply (twoOperands t.numBits a b)))
      HostError.IsRefusal (Impl.binary E op.name lhs rhs false s) := by
  have hdivision : ∀ op ∈ ALL_OPERATORS, op.hasEncrypted = true →
      op.arguments ≠ .binary .fheDiv ∧ op.arguments ≠ .binary .fheRem := by decide +kernel
  have hbyte : Impl.scalarByte op false = 0 := by
    rw [Impl.scalarByte, hscalar, hencrypted]
    rfl
  have hwell : WellTyped (.binary f lhs rhs 0) := by
    refine ⟨t, ht, hlhs.type, .inl ⟨rfl, hrhs.type⟩, ?_⟩
    have hno := hdivision op hop hencrypted
    rintro (rfl | rfl)
    · exact absurd hf hno.1
    · exact absurd hf hno.2
  simp only [Impl.binary, operatorNamed_name op hop, hf, hbyte]
  apply callExecutor_post hslots rfl hwell
  · simpa [ExecutorCall.operands] using ⟨hlhs.allowed, hrhs.allowed⟩
  · exact resultType_binary hlhs.type
  · intro _ result hresult hs
    rw [← clearText_twoOperands hop hf (hlhs.lt hs) (hrhs.lt hs), ← clearText_resultType]
    simp [ExecutorCall.event, TfheEvent.clearText, resultBits_eq hresult, hlhs.value hs,
      hrhs.value hs]

/-- A plaintext on the right. -/
theorem scalar_yields (hslots : SlotsFree E) (hop : op ∈ ALL_OPERATORS)
    (hf : op.arguments = .binary f) (hscalar : op.hasScalar = true) (ht : t ∈ f.supportedTypes)
    (hlhs : Holds E clear s t a lhs) (hrhs : rhs.toNat < 2 ^ t.numBits)
    (hdivision : f.IsDivision → rhs ≠ 0) :
    Post (Yields E clear s (f.resultType t) (op.name.apply (twoOperands t.numBits a rhs.toNat)))
      HostError.IsRefusal (Impl.binary E op.name lhs rhs true s) := by
  have hbyte : Impl.scalarByte op true = 1 := by
    rw [Impl.scalarByte, hscalar]
    cases op.hasEncrypted <;> rfl
  have hwell : WellTyped (.binary f lhs rhs 1) :=
    ⟨t, ht, hlhs.type, .inr rfl, fun h => ⟨rfl, hdivision h⟩⟩
  simp only [Impl.binary, operatorNamed_name op hop, hf, hbyte]
  apply callExecutor_post hslots rfl hwell
  · simpa [ExecutorCall.operands] using hlhs.allowed
  · exact resultType_binary hlhs.type
  · intro _ result hresult hs
    rw [← clearText_twoOperands hop hf (hlhs.lt hs) hrhs, ← clearText_resultType]
    simp [ExecutorCall.event, TfheEvent.clearText, resultBits_eq hresult, hlhs.value hs]

/-- A division by zero is refused as such, whatever else is wrong with it. -/
theorem division_by_zero (hop : op ∈ ALL_OPERATORS) (hf : op.arguments = .binary f)
    (hdivision : f.IsDivision) : Impl.binary E op.name lhs 0 true s = .error .divisionByZero := by
  have hbyte : Impl.scalarByte op true = 1 := by
    have hscalar : ∀ op ∈ ALL_OPERATORS, Impl.scalarByte op true = 1 ∨ op.isBinary = false := by
      decide +kernel
    obtain hone | hunary := hscalar op hop
    · exact hone
    · simp [Operator.isBinary, hf] at hunary
  simp only [Impl.binary, operatorNamed_name op hop, hf, hbyte]
  obtain rfl | rfl := hdivision
  · rfl
  · rfl

end Binary

end Calls

end Fhevm.LibrarySolidity
