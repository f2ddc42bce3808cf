import Fhevm.Host.FHEVMExecutor

/-!
# What a successful operation does

All operations of the executor but the verification of an input compute the handle
of their result from a packed description, charge their cost to the result, and allow the
result to the caller. What differs is the description, the encrypted operands, the type
of the result and the cost.

## Main definitions

* `WellTyped` — the types, scalars and bounds that the executor accepts.
* `computation` — the description of an operation.
* `Performs` — the effect of an operation with a given description.
-/

namespace Fhevm.Host

open Foundation FHEVMExecutor

/-! ## Types and costs -/

def BinaryOperator.supportedTypes : BinaryOperator → List FheType
  | .fheBitAnd | .fheBitOr | .fheBitXor => boolAndUint8To256
  | .fheShl | .fheShr | .fheRotl | .fheRotr => uint8To256
  | .fheEq | .fheNe => boolAndUint8To160And256
  | _ => uint8To128

def BinaryOperator.resultType : BinaryOperator → FheType → FheType
  | .fheEq | .fheNe | .fheGe | .fheGt | .fheLe | .fheLt => fun _ => .bool
  | _ => id

def BinaryOperator.cost : BinaryOperator → FheType → UInt8 → Option Nat
  | .fheAdd => fheAddHCU.cost
  | .fheSub => fheSubHCU.cost
  | .fheMul => fheMulHCU.cost
  | .fheDiv => fun t _ => fheDivHCU.lookup t
  | .fheRem => fun t _ => fheRemHCU.lookup t
  | .fheBitAnd => fheBitAndHCU.cost
  | .fheBitOr => fheBitOrHCU.cost
  | .fheBitXor => fheBitXorHCU.cost
  | .fheShl => fheShlHCU.cost
  | .fheShr => fheShrHCU.cost
  | .fheRotl => fheRotlHCU.cost
  | .fheRotr => fheRotrHCU.cost
  | .fheEq => fheEqHCU.cost
  | .fheNe => fheNeHCU.cost
  | .fheGe => fheGeHCU.cost
  | .fheGt => fheGtHCU.cost
  | .fheLe => fheLeHCU.cost
  | .fheLt => fheLtHCU.cost
  | .fheMin => fheMinHCU.cost
  | .fheMax => fheMaxHCU.cost

def UnaryOperator.supportedTypes : UnaryOperator → List FheType
  | .fheNeg => uint8To256
  | .fheNot => boolAndUint8To256

def UnaryOperator.hcu : UnaryOperator → HCUTable
  | .fheNeg => fheNegHCU
  | .fheNot => fheNotHCU

/-- The divisions take a scalar divisor only. -/
def BinaryOperator.IsDivision (op : BinaryOperator) : Prop := op = .fheDiv ∨ op = .fheRem

instance (op : BinaryOperator) : Decidable op.IsDivision := inferInstanceAs (Decidable (_ ∨ _))

/-- What the executor accepts of the operands and parameters of a call. -/
def WellTyped : ExecutorCall → Prop
  | .binary op lhs rhs scalarByte => ∃ t ∈ op.supportedTypes, typeOf lhs = some t ∧
      (scalarByte = 0 ∧ typeOf rhs = some t ∨ scalarByte = 1) ∧
      (op.IsDivision → scalarByte = 1 ∧ rhs ≠ 0)
  | .unary op ct => ∃ t ∈ op.supportedTypes, typeOf ct = some t
  | .fheIfThenElse control ifTrue ifFalse => typeOf control = some .bool ∧
      ∃ t ∈ boolAndUint8To160And256, typeOf ifTrue = some t ∧ typeOf ifFalse = some t
  | .fheRand randType => randType ∈ boolAndUint8To256
  | .fheRandBounded upperBound randType => randType ∈ uint8To256 ∧
      isPowerOfTwo upperBound = true ∧ checkBelowMaxBound upperBound randType = .ok ()
  | .cast ct toType => toType ∈ uint8To256 ∧
      ∃ t ∈ boolAndUint8To256, typeOf ct = some t ∧ t ≠ toType
  | .trivialEncrypt _ toType => toType ∈ boolAndUint8To160And256
  | .verifyInput inputHandle _ _ inputType => typeOf inputHandle = some inputType

/-! ## Descriptions -/

/-- The packed description of a result, the encrypted operands, the type and the cost. -/
structure Computation where
  preimage : Bytes
  operands : List Bytes32
  resultType : FheType
  cost : Nat
deriving DecidableEq, Repr

variable (D : Deployment) (V : SignatureScheme)

/-- The packed description of a call, given the seed of random numbers. -/
def ExecutorCall.preimage (seed : BitVec 128) : ExecutorCall → Bytes
  | .binary op lhs rhs scalarByte =>
    opByte op.toOperators ++ wordBytes lhs ++ wordBytes rhs ++ [scalarByte] ++ chainBytes D
  | .unary op ct => opByte op.toOperators ++ wordBytes ct ++ chainBytes D
  | .fheIfThenElse control ifTrue ifFalse => opByte .fheIfThenElse ++ wordBytes control ++
      wordBytes ifTrue ++ wordBytes ifFalse ++ chainBytes D
  | .fheRand randType => opByte .fheRand ++ typeByte randType ++ seedBytes seed
  | .fheRandBounded upperBound randType =>
    opByte .fheRandBounded ++ wordBytes upperBound ++ typeByte randType ++ seedBytes seed
  | .cast ct toType => opByte .cast ++ wordBytes ct ++ typeByte toType ++ chainBytes D
  | .trivialEncrypt pt toType =>
    opByte .trivialEncrypt ++ wordBytes pt ++ typeByte toType ++ chainBytes D
  | .verifyInput _ _ _ _ => []

/-- The operands that are handles. A scalar right operand is none. -/
def ExecutorCall.operands : ExecutorCall → List Bytes32
  | .binary _ lhs rhs scalarByte => if scalarByte = 0x01 then [lhs] else [lhs, rhs]
  | .unary _ ct => [ct]
  | .fheIfThenElse control ifTrue ifFalse => [control, ifTrue, ifFalse]
  | .cast ct _ => [ct]
  | _ => []

def ExecutorCall.resultType : ExecutorCall → Option FheType
  | .binary op lhs _ _ => (typeOf lhs).map op.resultType
  | .unary _ ct => typeOf ct
  | .fheIfThenElse _ ifTrue _ => typeOf ifTrue
  | .fheRand randType => some randType
  | .fheRandBounded _ randType => some randType
  | .cast _ toType => some toType
  | .trivialEncrypt _ toType => some toType
  | .verifyInput _ _ _ _ => none

def ExecutorCall.cost : ExecutorCall → Option Nat
  | .binary op lhs _ scalarByte => (typeOf lhs).bind fun t => op.cost t scalarByte
  | .unary op ct => (typeOf ct).bind fun t => op.hcu.lookup t
  | .fheIfThenElse _ ifTrue _ => (typeOf ifTrue).bind fun t => ifThenElseHCU.lookup t
  | .fheRand randType => fheRandHCU.lookup randType
  | .fheRandBounded _ randType => fheRandBoundedHCU.lookup randType
  | .cast _ toType => castHCU.lookup toType
  | .trivialEncrypt _ toType => trivialEncryptHCU.lookup toType
  | .verifyInput _ _ _ _ => none

/-- The description of an operation; an input is not computed. -/
def computation (seed : BitVec 128) (call : ExecutorCall) : Option Computation := do
  let resultType ← call.resultType
  let cost ← call.cost
  return ⟨call.preimage D seed, call.operands, resultType, cost⟩

/-- The state in which a handle is allowed to an account for the transaction. -/
def HostState.allowed (s : HostState) (sender : Address) (result : Bytes32) : ACLState :=
  { s.acl with transient := TransientSet.record (permissionKey D result sender) s.acl.transient }

/-- The effect of an operation. -/
structure Performs (sender : Address) (c : Computation) (s : HostState) (result : Bytes32)
    (s' : HostState) : Prop where
  result_eq : result = handleOf D c.preimage c.resultType
  operands_allowed : ∀ operand ∈ c.operands, isAllowed D operand sender s.acl = true
  not_paused : s.acl.paused = false
  charged : Charged c.cost c.operands result s.hcu s'.hcu
  acl_eq : s'.acl = s.allowed D sender result
  verifier_eq : s'.verifier = s.verifier

/-- The event for a call. -/
def ExecutorCall.event (caller : Address) (seed : BitVec 128) (result : Bytes32) :
    ExecutorCall → TfheEvent
  | .binary op lhs rhs scalarByte => .binary op caller lhs rhs scalarByte result
  | .unary op ct => .unary op caller ct result
  | .fheIfThenElse control ifTrue ifFalse => .fheIfThenElse caller control ifTrue ifFalse result
  | .fheRand randType => .fheRand caller randType seed result
  | .fheRandBounded upperBound randType => .fheRandBounded caller upperBound randType seed result
  | .cast ct toType => .cast caller ct toType result
  | .trivialEncrypt pt toType => .trivialEncrypt caller pt toType result
  | .verifyInput inputHandle userAddress inputProof inputType =>
    .verifyInput caller inputHandle userAddress inputProof inputType result

/-- The verification of an input is no computation. -/
def ExecutorCall.isInput : ExecutorCall → Bool
  | .verifyInput _ _ _ _ => true
  | _ => false

/-! ## Every successful operation -/

section Inversion

variable {D} {V} {ctx : Context} {s s' : HostState} {result : Bytes32} {event : TfheEvent}
  {seed : BitVec 128}

theorem handleType_eq_ok {handle : Bytes32} {t : FheType} :
    handleType handle = .ok t ↔ typeOf handle = some t := by
  unfold handleType
  cases typeOf handle <;> simp

theorem verifyAndReturnType_eq_ok {handle : Bytes32} {types : List FheType} {t : FheType} :
    verifyAndReturnType handle types = .ok t ↔ typeOf handle = some t ∧ t ∈ types := by
  simp only [verifyAndReturnType, checkSupported, bind_eq_ok, handleType_eq_ok, require_eq_ok,
    pure_eq_ok, exists_const]
  grind

theorem allowResult_eq_ok {sender : Address} :
    allowResult D sender result s = .ok s' ↔
      s.acl.paused = false ∧ s' = { s with acl := s.allowed D sender result } := by
  simp only [allowResult, bind_eq_ok, allowTransient_eq_ok, pure_eq_ok, ne_eq, not_true,
    false_implies, and_true]
  constructor
  · rintro ⟨_, ⟨hpaused, rfl⟩, rfl⟩
    exact ⟨hpaused, rfl⟩
  · rintro ⟨hpaused, rfl⟩
    exact ⟨_, ⟨hpaused, rfl⟩, rfl⟩

theorem checkAllowed_eq_ok {sender : Address} {handle : Bytes32} {acl : ACLState} {u : Unit} :
    checkAllowed D sender handle acl = .ok u ↔ isAllowed D handle sender acl = true := by
  simp [checkAllowed]

/-- The handle of an operation is allowed to the caller. -/
theorem allowed_handleOf {sender : Address} {handle : Bytes32} {r : Bytes32 × HostState}
    (h : ∃ s₁, allowResult D sender handle s = .ok s₁ ∧ (handle, s₁) = r) :
    s.acl.paused = false ∧ r = (handle, { s with acl := s.allowed D sender handle }) := by
  obtain ⟨_, hallow, rfl⟩ := h
  obtain ⟨hpaused, rfl⟩ := allowResult_eq_ok.mp hallow
  exact ⟨hpaused, rfl⟩

theorem binaryOp_ok {op : Operators} {sender : Address} {lhs rhs : Bytes32} {scalar : UInt8}
    {type : FheType} {r : Bytes32 × HostState}
    (h : binaryOp D op sender lhs rhs scalar type s = .ok r) :
    isAllowed D lhs sender s.acl = true ∧
      (scalar = 0 ∧ isAllowed D rhs sender s.acl = true ∧ typeOf rhs = typeOf lhs ∨ scalar = 1) ∧
      s.acl.paused = false ∧
      ∃ result, result = handleOf D (opByte op ++ wordBytes lhs ++ wordBytes rhs ++ [scalar] ++
        chainBytes D) type ∧ r = (result, { s with acl := s.allowed D sender result }) := by
  simp only [binaryOp, checkBoolean, bind_eq_ok, checkAllowed_eq_ok, require_eq_ok,
    exists_const] at h
  obtain ⟨hbool, hlhs, h⟩ := h
  split_ifs at h with hscalar
  · simp only [bind_eq_ok, checkAllowed_eq_ok, handleType_eq_ok, require_eq_ok, pure_eq_ok,
      exists_const] at h
    obtain ⟨hrhs, rhsType, hrhsType, lhsType, hlhsType, rfl, h⟩ := h
    obtain ⟨hpaused, hr⟩ := allowed_handleOf h
    exact ⟨hlhs, .inl ⟨hscalar, hrhs, hrhsType.trans hlhsType.symm⟩, hpaused, _, rfl, hr⟩
  · simp only [bind_eq_ok, pure_eq_ok] at h
    obtain ⟨hpaused, hr⟩ := allowed_handleOf h
    have hone : scalar = 1 := by
      have hne : scalar.toNat ≠ 0 := fun h0 => hscalar (UInt8.toNat_inj.mp h0)
      exact UInt8.toNat_inj.mp (show scalar.toNat = 1 by omega)
    exact ⟨hlhs, .inr hone, hpaused, _, rfl, hr⟩

/-- Binary operations, given what the check of their cost does. -/
theorem binaryOperation_ok {op : BinaryOperator} {types : List FheType}
    {resultType : FheType → FheType}
    {checkHCU : Address → FheType → UInt8 → Bytes32 → Bytes32 → Bytes32 → HCUStorage →
      Result HCUStorage} {lhs rhs : Bytes32} {scalarByte : UInt8}
    (hcheck : ∀ {t r hcu hcu'}, checkHCU D.fhevmExecutorAdd t scalarByte lhs rhs r hcu = .ok hcu' →
      ∃ cost, op.cost t scalarByte = some cost ∧
        Charged cost (if scalarByte = 0x01 then [lhs] else [lhs, rhs]) r hcu hcu')
    (htypes : types = op.supportedTypes) (hresult : resultType = op.resultType)
    (h : binaryOperation D op types resultType checkHCU ctx lhs rhs scalarByte s =
      .ok ((result, event), s')) :
    (∃ t ∈ op.supportedTypes, typeOf lhs = some t ∧
        (scalarByte = 0 ∧ typeOf rhs = some t ∨ scalarByte = 1)) ∧
      event = .binary op ctx.sender lhs rhs scalarByte result ∧
      ∃ c, computation D seed (.binary op lhs rhs scalarByte) = some c ∧
        Performs D ctx.sender c s result s' := by
  subst htypes hresult
  simp only [binaryOperation, bind_eq_ok, verifyAndReturnType_eq_ok, pure_eq_ok] at h
  obtain ⟨t, ⟨hlhs, hsupported⟩, r, hop, hcu, hcharge, heq⟩ := h
  obtain ⟨hlhsAllowed, hscalar, hpaused, handle, hhandle, rfl⟩ := binaryOp_ok hop
  obtain ⟨cost, hcost, hcharged⟩ := hcheck hcharge
  simp only [Prod.mk.injEq] at heq
  obtain ⟨⟨rfl, rfl⟩, rfl⟩ := heq
  have hcomputation : computation D seed (.binary op lhs rhs scalarByte) =
      some ⟨(ExecutorCall.binary op lhs rhs scalarByte).preimage D seed,
        (ExecutorCall.binary op lhs rhs scalarByte).operands, op.resultType t, cost⟩ := by
    simp [computation, ExecutorCall.resultType, ExecutorCall.cost, hlhs, hcost]
  refine ⟨⟨t, hsupported, hlhs, ?_⟩, rfl, _, hcomputation, ?_⟩
  · rcases hscalar with ⟨h0, -, htype⟩ | h1
    · exact .inl ⟨h0, htype.trans hlhs⟩
    · exact .inr h1
  · refine ⟨hhandle, ?_, hpaused, hcharged, rfl, rfl⟩
    intro operand hoperand
    rcases hscalar with ⟨rfl, hrhs, -⟩ | rfl
    · have hmem : operand = lhs ∨ operand = rhs := by simpa [ExecutorCall.operands] using hoperand
      rcases hmem with rfl | rfl
      · exact hlhsAllowed
      · exact hrhs
    · have hmem : operand = lhs := by simpa [ExecutorCall.operands] using hoperand
      exact hmem ▸ hlhsAllowed

theorem unaryOperation_ok {op : UnaryOperator} {types : List FheType} {table : HCUTable}
    {ct : Bytes32} (htypes : types = op.supportedTypes) (htable : table = op.hcu)
    (h : unaryOperation D op types (checkHCUForUnary D table) ctx ct s = .ok ((result, event), s')) :
    (∃ t ∈ op.supportedTypes, typeOf ct = some t) ∧ event = .unary op ctx.sender ct result ∧
      ∃ c, computation D seed (.unary op ct) = some c ∧ Performs D ctx.sender c s result s' := by
  subst htypes htable
  simp only [unaryOperation, unaryOp, bind_eq_ok, verifyAndReturnType_eq_ok, checkAllowed_eq_ok,
    handleType_eq_ok, checkHCUForUnary_eq_ok, pure_eq_ok, exists_const] at h
  obtain ⟨t, ⟨hct, hsupported⟩, r, ⟨hallowed, t', ht', hop⟩, hcu, ⟨cost, hcost, hcharged⟩, heq⟩ := h
  obtain rfl : t = t' := Option.some.inj (hct.symm.trans ht')
  obtain ⟨hpaused, rfl⟩ := allowed_handleOf hop
  simp only [Prod.mk.injEq] at heq
  obtain ⟨⟨rfl, rfl⟩, rfl⟩ := heq
  have hcomputation : computation D seed (.unary op ct) =
      some ⟨(ExecutorCall.unary op ct).preimage D seed, [ct], t, cost⟩ := by
    simp [computation, ExecutorCall.resultType, ExecutorCall.cost, ExecutorCall.operands, hct, hcost]
  exact ⟨⟨t, hsupported, hct⟩, rfl, _, hcomputation, rfl, by simpa using hallowed, hpaused, hcharged,
    rfl, rfl⟩

theorem fheIfThenElse_ok {control ifTrue ifFalse : Bytes32}
    (h : FHEVMExecutor.fheIfThenElse D ctx control ifTrue ifFalse s = .ok ((result, event), s')) :
    WellTyped (.fheIfThenElse control ifTrue ifFalse) ∧
      event = .fheIfThenElse ctx.sender control ifTrue ifFalse result ∧
      ∃ c, computation D seed (.fheIfThenElse control ifTrue ifFalse) = some c ∧
        Performs D ctx.sender c s result s' := by
  simp only [FHEVMExecutor.fheIfThenElse, ternaryOp, bind_eq_ok, verifyAndReturnType_eq_ok,
    checkAllowed_eq_ok, handleType_eq_ok, require_eq_ok, checkHCUForIfThenElse_eq_ok, pure_eq_ok,
    exists_const] at h
  obtain ⟨t, ⟨htrue, hsupported⟩, r, ⟨hc, ht, hf, controlType, hcontrol, t', ht', falseType, hfalse,
    rfl, rfl, hop⟩, hcu, ⟨cost, hcost, hcharged⟩, heq⟩ := h
  obtain rfl : t = t' := Option.some.inj (htrue.symm.trans ht')
  obtain ⟨hpaused, rfl⟩ := allowed_handleOf hop
  simp only [Prod.mk.injEq] at heq
  obtain ⟨⟨rfl, rfl⟩, rfl⟩ := heq
  have hcomputation : computation D seed (.fheIfThenElse control ifTrue ifFalse) =
      some ⟨(ExecutorCall.fheIfThenElse control ifTrue ifFalse).preimage D seed,
        [control, ifTrue, ifFalse], t, cost⟩ := by
    simp [computation, ExecutorCall.resultType, ExecutorCall.cost, ExecutorCall.operands, htrue, hcost]
  exact ⟨⟨hcontrol, t, hsupported, htrue, hfalse⟩, rfl, _, hcomputation, rfl,
    by simpa using ⟨hc, ht, hf⟩, hpaused, hcharged, rfl, rfl⟩

theorem cast_ok {ct : Bytes32} {toType : FheType}
    (h : FHEVMExecutor.cast D ctx ct toType s = .ok ((result, event), s')) :
    WellTyped (.cast ct toType) ∧ event = .cast ctx.sender ct toType result ∧
      ∃ c, computation D seed (.cast ct toType) = some c ∧ Performs D ctx.sender c s result s' := by
  simp only [FHEVMExecutor.cast, bind_eq_ok, checkAllowed_eq_ok, verifyAndReturnType_eq_ok,
    checkSupported, require_eq_ok, checkHCUForCast, checkHCUForUnary_eq_ok, allowResult_eq_ok,
    pure_eq_ok, exists_const] at h
  obtain ⟨hallowed, t, ⟨hct, hsupported⟩, hto, hne, hcu, ⟨cost, hcost, hcharged⟩, _,
    ⟨hpaused, rfl⟩, heq⟩ := h
  simp only [Prod.mk.injEq] at heq
  obtain ⟨⟨rfl, rfl⟩, rfl⟩ := heq
  have hcomputation : computation D seed (.cast ct toType) =
      some ⟨(ExecutorCall.cast ct toType).preimage D seed, [ct], toType, cost⟩ := by
    simp [computation, ExecutorCall.resultType, ExecutorCall.cost, ExecutorCall.operands, hcost]
  exact ⟨⟨hto, t, hsupported, hct, hne⟩, rfl, _, hcomputation, rfl, by simpa using hallowed, hpaused,
    hcharged, rfl, rfl⟩

theorem trivialEncrypt_ok {pt : BitVec 256} {toType : FheType}
    (h : FHEVMExecutor.trivialEncrypt D ctx pt toType s = .ok ((result, event), s')) :
    WellTyped (.trivialEncrypt pt toType) ∧ event = .trivialEncrypt ctx.sender pt toType result ∧
      ∃ c, computation D seed (.trivialEncrypt pt toType) = some c ∧
        Performs D ctx.sender c s result s' := by
  simp only [FHEVMExecutor.trivialEncrypt, bind_eq_ok, checkSupported, require_eq_ok,
    checkHCUForTrivialEncrypt, checkHCUForSource_eq_ok (show ∀ entry ∈ trivialEncryptHCU, entry.2 <
      MAX_HOMOMORPHIC_COMPUTE_UNITS_DEPTH_PER_TX by decide), allowResult_eq_ok, pure_eq_ok,
    exists_const] at h
  obtain ⟨hto, hcu, ⟨cost, hcost, hcharged⟩, _, ⟨hpaused, rfl⟩, heq⟩ := h
  simp only [Prod.mk.injEq] at heq
  obtain ⟨⟨rfl, rfl⟩, rfl⟩ := heq
  have hcomputation : computation D seed (.trivialEncrypt pt toType) =
      some ⟨(ExecutorCall.trivialEncrypt pt toType).preimage D seed, [], toType, cost⟩ := by
    simp [computation, ExecutorCall.resultType, ExecutorCall.cost, ExecutorCall.operands, hcost]
  exact ⟨hto, rfl, _, hcomputation, rfl, by simp, hpaused, hcharged, rfl, rfl⟩

theorem generateSeed_eq_ok {r : BitVec 128 × HostState} :
    generateSeed D ctx s = .ok r ↔ s.counterRand + 1 < 2 ^ 256 ∧
      r = (seedOf D ctx s.counterRand, { s with counterRand := s.counterRand + 1 }) := by
  simp only [generateSeed, bind_eq_ok, increment_eq_ok, pure_eq_ok]
  grind

theorem fheRand_ok {randType : FheType}
    (h : FHEVMExecutor.fheRand D ctx randType s = .ok ((result, event), s')) :
    WellTyped (.fheRand randType) ∧
      event = .fheRand ctx.sender randType (seedOf D ctx s.counterRand) result ∧
      ∃ c, computation D (seedOf D ctx s.counterRand) (.fheRand randType) = some c ∧
        Performs D ctx.sender c s result s' := by
  simp only [FHEVMExecutor.fheRand, generateRand, bind_eq_ok, generateSeed_eq_ok, checkSupported,
    require_eq_ok, checkHCUForFheRand, checkHCUForSource_eq_ok (show ∀ entry ∈ fheRandHCU, entry.2 <
      MAX_HOMOMORPHIC_COMPUTE_UNITS_DEPTH_PER_TX by decide), allowResult_eq_ok, pure_eq_ok,
    exists_const] at h
  obtain ⟨_, ⟨-, rfl⟩, r, ⟨htype, hcu, ⟨cost, hcost, hcharged⟩, _, ⟨hpaused, rfl⟩, rfl⟩, heq⟩ := h
  simp only [Prod.mk.injEq] at heq
  obtain ⟨⟨rfl, rfl⟩, rfl⟩ := heq
  have hcomputation : computation D (seedOf D ctx s.counterRand) (.fheRand randType) =
      some ⟨(ExecutorCall.fheRand randType).preimage D (seedOf D ctx s.counterRand), [], randType,
        cost⟩ := by
    simp [computation, ExecutorCall.resultType, ExecutorCall.cost, ExecutorCall.operands, hcost]
  exact ⟨htype, rfl, _, hcomputation, rfl, by simp, hpaused, hcharged, rfl, rfl⟩

theorem fheRandBounded_ok {upperBound : BitVec 256} {randType : FheType}
    (h : FHEVMExecutor.fheRandBounded D ctx upperBound randType s = .ok ((result, event), s')) :
    WellTyped (.fheRandBounded upperBound randType) ∧
      event = .fheRandBounded ctx.sender upperBound randType (seedOf D ctx s.counterRand) result ∧
      ∃ c, computation D (seedOf D ctx s.counterRand) (.fheRandBounded upperBound randType) =
          some c ∧ Performs D ctx.sender c s result s' := by
  simp only [FHEVMExecutor.fheRandBounded, generateRandBounded, bind_eq_ok, generateSeed_eq_ok,
    checkSupported, require_eq_ok, checkHCUForFheRandBounded, checkHCUForSource_eq_ok (show
      ∀ entry ∈ fheRandBoundedHCU, entry.2 < MAX_HOMOMORPHIC_COMPUTE_UNITS_DEPTH_PER_TX by decide),
    allowResult_eq_ok, pure_eq_ok, exists_const] at h
  obtain ⟨_, ⟨-, rfl⟩, r, ⟨htype, hpower, _, hbound, hcu, ⟨cost, hcost, hcharged⟩, _,
    ⟨hpaused, rfl⟩, rfl⟩, heq⟩ := h
  simp only [Prod.mk.injEq] at heq
  obtain ⟨⟨rfl, rfl⟩, rfl⟩ := heq
  have hcomputation : computation D (seedOf D ctx s.counterRand)
      (.fheRandBounded upperBound randType) =
      some ⟨(ExecutorCall.fheRandBounded upperBound randType).preimage D
        (seedOf D ctx s.counterRand), [], randType, cost⟩ := by
    simp [computation, ExecutorCall.resultType, ExecutorCall.cost, ExecutorCall.operands, hcost]
  exact ⟨⟨htype, hpower, hbound⟩, rfl, _, hcomputation, rfl, by simp, hpaused, hcharged, rfl, rfl⟩

/-- The entry points for binary operators. The divisions check their divisor first. -/
theorem binaryCall_ok {op : BinaryOperator} {lhs rhs : Bytes32} {scalarByte : UInt8}
    (h : binaryCall D op ctx lhs rhs scalarByte s = .ok ((result, event), s')) :
    WellTyped (.binary op lhs rhs scalarByte) ∧
      event = .binary op ctx.sender lhs rhs scalarByte result ∧
      ∃ c, computation D seed (.binary op lhs rhs scalarByte) = some c ∧
        Performs D ctx.sender c s result s' := by
  have hregular : ∀ {op : BinaryOperator} {types : List FheType} {resultType : FheType → FheType}
      {checkHCU : Address → FheType → UInt8 → Bytes32 → Bytes32 → Bytes32 → HCUStorage →
        Result HCUStorage},
      (∀ {t r hcu hcu'}, checkHCU D.fhevmExecutorAdd t scalarByte lhs rhs r hcu = .ok hcu' →
        ∃ cost, op.cost t scalarByte = some cost ∧
          Charged cost (if scalarByte = 0x01 then [lhs] else [lhs, rhs]) r hcu hcu') →
      types = op.supportedTypes → resultType = op.resultType → ¬ op.IsDivision →
      binaryOperation D op types resultType checkHCU ctx lhs rhs scalarByte s =
        .ok ((result, event), s') →
      WellTyped (.binary op lhs rhs scalarByte) ∧
        event = .binary op ctx.sender lhs rhs scalarByte result ∧
        ∃ c, computation D seed (.binary op lhs rhs scalarByte) = some c ∧
          Performs D ctx.sender c s result s' := by
    intro op types resultType checkHCU hcheck htypes hresult hdiv h
    obtain ⟨⟨t, ht, hlhs, hscalar⟩, hevent, hc⟩ := binaryOperation_ok hcheck htypes hresult h
    exact ⟨⟨t, ht, hlhs, hscalar, fun hd => absurd hd hdiv⟩, hevent, hc⟩
  have hdivision : ∀ {op : BinaryOperator} {types : List FheType} {table : HCUTable},
      (∀ t, op.cost t scalarByte = table.lookup t) → types = op.supportedTypes →
      id = op.resultType → scalarByte = 0x01 ∧ rhs ≠ 0 ∧
        binaryOperation D op types id (checkHCUForScalar D table) ctx lhs rhs scalarByte s =
          .ok ((result, event), s') →
      WellTyped (.binary op lhs rhs scalarByte) ∧
        event = .binary op ctx.sender lhs rhs scalarByte result ∧
        ∃ c, computation D seed (.binary op lhs rhs scalarByte) = some c ∧
          Performs D ctx.sender c s result s' := by
    intro op types table hcost htypes hresult ⟨hscalar, hrhs, h⟩
    have hcheck : ∀ {t r hcu hcu'}, checkHCUForScalar D table D.fhevmExecutorAdd t scalarByte lhs
        rhs r hcu = .ok hcu' → ∃ cost, op.cost t scalarByte = some cost ∧
          Charged cost (if scalarByte = 0x01 then [lhs] else [lhs, rhs]) r hcu hcu' := by
      intro t r hcu hcu' hc
      obtain ⟨-, cost, hlookup, hcharged⟩ := checkHCUForScalar_eq_ok.mp hc
      rw [if_pos hscalar]
      exact ⟨cost, (hcost t).trans hlookup, hcharged⟩
    obtain ⟨⟨t, ht, hlhs, hs⟩, hevent, hc⟩ := binaryOperation_ok hcheck htypes hresult h
    exact ⟨⟨t, ht, hlhs, hs, fun _ => ⟨hscalar, hrhs⟩⟩, hevent, hc⟩
  cases op with
  | fheDiv =>
    simp only [binaryCall, fheDiv, bind_eq_ok, require_eq_ok, exists_const] at h
    exact hdivision (fun _ => rfl) rfl rfl h
  | fheRem =>
    simp only [binaryCall, fheRem, bind_eq_ok, require_eq_ok, exists_const] at h
    exact hdivision (fun _ => rfl) rfl rfl h
  | fheAdd => exact hregular checkHCUForBinary_eq_ok.mp rfl rfl (by decide) h
  | fheSub => exact hregular checkHCUForBinary_eq_ok.mp rfl rfl (by decide) h
  | fheMul => exact hregular checkHCUForBinary_eq_ok.mp rfl rfl (by decide) h
  | fheBitAnd => exact hregular checkHCUForBinary_eq_ok.mp rfl rfl (by decide) h
  | fheBitOr => exact hregular checkHCUForBinary_eq_ok.mp rfl rfl (by decide) h
  | fheBitXor => exact hregular checkHCUForBinary_eq_ok.mp rfl rfl (by decide) h
  | fheShl => exact hregular checkHCUForBinary_eq_ok.mp rfl rfl (by decide) h
  | fheShr => exact hregular checkHCUForBinary_eq_ok.mp rfl rfl (by decide) h
  | fheRotl => exact hregular checkHCUForBinary_eq_ok.mp rfl rfl (by decide) h
  | fheRotr => exact hregular checkHCUForBinary_eq_ok.mp rfl rfl (by decide) h
  | fheEq => exact hregular checkHCUForBinary_eq_ok.mp rfl rfl (by decide) h
  | fheNe => exact hregular checkHCUForBinary_eq_ok.mp rfl rfl (by decide) h
  | fheGe => exact hregular checkHCUForBinary_eq_ok.mp rfl rfl (by decide) h
  | fheGt => exact hregular checkHCUForBinary_eq_ok.mp rfl rfl (by decide) h
  | fheLe => exact hregular checkHCUForBinary_eq_ok.mp rfl rfl (by decide) h
  | fheLt => exact hregular checkHCUForBinary_eq_ok.mp rfl rfl (by decide) h
  | fheMin => exact hregular checkHCUForBinary_eq_ok.mp rfl rfl (by decide) h
  | fheMax => exact hregular checkHCUForBinary_eq_ok.mp rfl rfl (by decide) h

/-- Every successful operation is well typed, emits its event, and has the effect of its
description. -/
theorem executorCall_ok {call : ExecutorCall} (hcall : call.isInput = false)
    (h : executorCall D V ctx s call = .ok ((result, event), s')) :
    WellTyped call ∧ event = call.event ctx.sender (seedOf D ctx s.counterRand) result ∧
      ∃ c, computation D (seedOf D ctx s.counterRand) call = some c ∧
        Performs D ctx.sender c s result s' := by
  cases call with
  | binary op lhs rhs scalarByte => exact binaryCall_ok h
  | unary op ct =>
    cases op with
    | fheNeg => exact unaryOperation_ok rfl rfl h
    | fheNot => exact unaryOperation_ok rfl rfl h
  | fheIfThenElse control ifTrue ifFalse => exact fheIfThenElse_ok h
  | fheRand randType => exact fheRand_ok h
  | fheRandBounded upperBound randType => exact fheRandBounded_ok h
  | cast ct toType => exact cast_ok h
  | trivialEncrypt pt toType => exact trivialEncrypt_ok h
  | verifyInput inputHandle userAddress inputProof inputType => cases hcall

/-- An accepted input is allowed to the caller; nothing is charged for it. -/
theorem verifyInput_ok {inputHandle : Bytes32} {userAddress : Address} {inputProof : Bytes}
    {inputType : FheType} (h : executorCall D V ctx s (.verifyInput inputHandle userAddress inputProof
      inputType) = .ok ((result, event), s')) :
    WellTyped (.verifyInput inputHandle userAddress inputProof inputType) ∧ result = inputHandle ∧
      event = .verifyInput ctx.sender inputHandle userAddress inputProof inputType result ∧
      s.acl.paused = false ∧ s'.acl = s.allowed D ctx.sender result ∧ s'.hcu = s.hcu ∧
      s'.counterRand = s.counterRand ∧
      Host.verifyInput D V ⟨userAddress, ctx.sender⟩ inputHandle inputProof s.verifier =
        .ok (result, s'.verifier) := by
  simp only [executorCall, FHEVMExecutor.verifyInput, bind_eq_ok, handleType_eq_ok, require_eq_ok,
    allowResult_eq_ok, pure_eq_ok, exists_const] at h
  obtain ⟨_, htype, rfl, ⟨r, verifier⟩, hverify, _, ⟨hpaused, rfl⟩, heq⟩ := h
  simp only [Prod.mk.injEq] at heq
  obtain ⟨⟨rfl, rfl⟩, rfl⟩ := heq
  exact ⟨htype, (verifyInput_result hverify).1, rfl, hpaused, rfl, rfl, rfl, hverify⟩

end Inversion

end Fhevm.Host
