import Fhevm.Foundation.Contract
import Fhevm.Host.Computation

/-!
# When an operation reverts

An operation whose operands have the right types and are allowed to the caller is refused for
two reasons only: it is too expensive, or the access control list is paused.

## Main definitions

* `HostError.IsRefusal` — the reasons.
* `ExecutorCall.isOperator` — the operations without randomness and without inputs.
-/

namespace Fhevm.Host

open Foundation FHEVMExecutor

/-- Reverts that no operand is the reason of. -/
def HostError.IsRefusal (e : HostError) : Prop :=
  e = .hcuTransactionLimitExceeded ∨ e = .hcuTransactionDepthLimitExceeded ∨ e = .enforcedPause

instance (e : HostError) : Decidable e.IsRefusal := inferInstanceAs (Decidable (_ ∨ _ ∨ _))

/-- Operations that draw no random numbers and verify no input. -/
def ExecutorCall.isOperator : ExecutorCall → Bool
  | .fheRand _ | .fheRandBounded _ _ | .verifyInput _ _ _ _ => false
  | _ => true

/-! ## Costs -/

section Costs

variable {D : Deployment} {table : HCUTable} {cost : Nat} {operands : List Bytes32}
  {resultType : FheType} {scalarByte : UInt8} {lhs middle rhs ct result : Bytes32} {s : HCUStorage}

theorem updateAndVerify_post :
    Post (fun _ => True) HostError.IsRefusal (updateAndVerifyHCUTransactionLimit cost s) := by
  apply Post.bind (Post.require fun _ => .inl rfl)
  intro _ _
  exact Post.pure trivial

theorem charge_post : Post (fun _ => True) HostError.IsRefusal (charge cost operands result s) := by
  apply Post.bind updateAndVerify_post
  intro s' _
  apply Post.bind (Post.require fun _ => .inr (.inl rfl))
  intro _ _
  exact Post.pure trivial

theorem opHCU_post (h : table.lookup resultType = some cost) :
    Post (fun _ => True) HostError.IsRefusal (opHCU table resultType) :=
  Post.of_eq (opHCU_eq_ok.mpr h) trivial

theorem onlyExecutor_post :
    Post (fun _ => True) HostError.IsRefusal (onlyExecutor D D.fhevmExecutorAdd) :=
  Post.require_of rfl

theorem checkHCUForBinary_post {table : BinaryHCU} (h : table.cost resultType scalarByte = some cost) :
    Post (fun _ => True) HostError.IsRefusal
      (checkHCUForBinary D table D.fhevmExecutorAdd resultType scalarByte lhs rhs result s) := by
  apply Post.bind onlyExecutor_post
  intro _ _
  by_cases hscalar : scalarByte = 0x01
  · rw [if_pos hscalar]
    rw [BinaryHCU.cost, if_pos hscalar] at h
    exact Post.bind (opHCU_post h) fun _ _ => charge_post
  · rw [if_neg hscalar]
    rw [BinaryHCU.cost, if_neg hscalar] at h
    exact Post.bind (opHCU_post h) fun _ _ => charge_post

theorem checkHCUForScalar_post (hscalar : scalarByte = 0x01)
    (h : table.lookup resultType = some cost) :
    Post (fun _ => True) HostError.IsRefusal
      (checkHCUForScalar D table D.fhevmExecutorAdd resultType scalarByte lhs rhs result s) := by
  apply Post.bind onlyExecutor_post
  intro _ _
  apply Post.bind (Post.require_of hscalar)
  intro _ _
  exact Post.bind (opHCU_post h) fun _ _ => charge_post

theorem checkHCUForUnary_post (h : table.lookup resultType = some cost) :
    Post (fun _ => True) HostError.IsRefusal
      (checkHCUForUnary D table D.fhevmExecutorAdd resultType ct result s) := by
  apply Post.bind onlyExecutor_post
  intro _ _
  exact Post.bind (opHCU_post h) fun _ _ => charge_post

theorem checkHCUForSource_post (h : table.lookup resultType = some cost) :
    Post (fun _ => True) HostError.IsRefusal
      (checkHCUForSource D table D.fhevmExecutorAdd resultType result s) := by
  apply Post.bind onlyExecutor_post
  intro _ _
  apply Post.bind (opHCU_post h)
  intro _ _
  exact Post.bind updateAndVerify_post fun _ _ => Post.pure trivial

theorem checkHCUForIfThenElse_post (h : ifThenElseHCU.lookup resultType = some cost) :
    Post (fun _ => True) HostError.IsRefusal
      (checkHCUForIfThenElse D D.fhevmExecutorAdd resultType lhs middle rhs result s) := by
  apply Post.bind onlyExecutor_post
  intro _ _
  exact Post.bind (opHCU_post h) fun _ _ => charge_post

/-- Every operation has a price for every type it accepts. -/
theorem BinaryOperator.cost_of_supported (op : BinaryOperator) {t : FheType}
    (ht : t ∈ op.supportedTypes) (hscalar : scalarByte = 0 ∨ scalarByte = 1) :
    ∃ cost, op.cost t scalarByte = some cost := by
  have hpriced : ∀ t ∈ op.supportedTypes, (op.cost t 0).isSome ∧ (op.cost t 1).isSome := by
    cases op <;> decide
  obtain rfl | rfl := hscalar
  · exact Option.isSome_iff_exists.mp (hpriced t ht).1
  · exact Option.isSome_iff_exists.mp (hpriced t ht).2

theorem UnaryOperator.cost_of_supported (op : UnaryOperator) {t : FheType}
    (ht : t ∈ op.supportedTypes) : ∃ cost, op.hcu.lookup t = some cost := by
  have hpriced : ∀ t ∈ op.supportedTypes, (op.hcu.lookup t).isSome := by
    cases op <;> decide
  exact Option.isSome_iff_exists.mp (hpriced t ht)

end Costs

/-! ## Operations -/

section Operations

variable {D : Deployment} {V : SignatureScheme} {ctx : Context} {s : HostState}

theorem allowResult_post {sender : Address} {result : Bytes32} :
    Post (fun _ => True) HostError.IsRefusal (allowResult D sender result s) := by
  apply Post.bind (Q := fun _ => True)
  · apply Post.bind (Post.require fun _ => .inr (.inr rfl))
    intro _ _
    rw [if_neg (not_not.mpr rfl)]
    exact Post.pure trivial
  · intro _ _
    exact Post.pure trivial

theorem checkAllowed_post {sender : Address} {handle : Bytes32} {acl : ACLState}
    (h : isAllowed D handle sender acl = true) :
    Post (fun _ => True) HostError.IsRefusal (checkAllowed D sender handle acl) :=
  Post.require_of h

theorem handleType_post {handle : Bytes32} {t : FheType} (h : typeOf handle = some t) :
    Post (· = t) HostError.IsRefusal (handleType handle) :=
  Post.of_eq (handleType_eq_ok.mpr h) rfl

theorem verifyAndReturnType_post {handle : Bytes32} {types : List FheType} {t : FheType}
    (h : typeOf handle = some t) (ht : t ∈ types) :
    Post (· = t) HostError.IsRefusal (verifyAndReturnType handle types) :=
  Post.of_eq (verifyAndReturnType_eq_ok.mpr ⟨h, ht⟩) rfl

theorem binaryOp_post {op : Operators} {sender : Address} {lhs rhs : Bytes32} {scalar : UInt8}
    {t type : FheType} (hlhs : isAllowed D lhs sender s.acl = true) (ht : typeOf lhs = some t)
    (hrhs : scalar = 0 ∧ isAllowed D rhs sender s.acl = true ∧ typeOf rhs = some t ∨ scalar = 1) :
    Post (fun _ => True) HostError.IsRefusal (binaryOp D op sender lhs rhs scalar type s) := by
  have hfinish : ∀ result, Post (fun _ => True) HostError.IsRefusal (do
      let s ← allowResult D sender result s
      return (result, s)) := fun _ => Post.bind allowResult_post fun _ _ => Post.pure trivial
  have hbool : ¬ 1 < scalar.toNat := by
    obtain ⟨rfl, -⟩ | rfl := hrhs
    · decide
    · decide
  apply Post.bind (Post.require_of hbool)
  intro _ _
  apply Post.bind (checkAllowed_post hlhs)
  intro _ _
  split_ifs with hscalar
  · obtain ⟨-, hallowed, htype⟩ | rfl := hrhs
    · apply Post.bind (checkAllowed_post hallowed)
      intro _ _
      apply Post.bind (handleType_post htype)
      rintro _ rfl
      apply Post.bind (handleType_post ht)
      rintro _ rfl
      apply Post.bind (Post.require_of rfl)
      intro _ _
      exact hfinish _
    · exact absurd hscalar (by decide)
  · exact hfinish _

theorem binaryOperation_post {op : BinaryOperator} {types : List FheType}
    {resultType : FheType → FheType}
    {checkHCU : Address → FheType → UInt8 → Bytes32 → Bytes32 → Bytes32 → HCUStorage →
      Result HCUStorage} {lhs rhs : Bytes32} {scalarByte : UInt8} {t : FheType}
    (hcheck : ∀ result hcu, Post (fun _ => True) HostError.IsRefusal
      (checkHCU D.fhevmExecutorAdd t scalarByte lhs rhs result hcu))
    (hlhs : isAllowed D lhs ctx.sender s.acl = true) (ht : typeOf lhs = some t) (hmem : t ∈ types)
    (hrhs : scalarByte = 0 ∧ isAllowed D rhs ctx.sender s.acl = true ∧ typeOf rhs = some t ∨
      scalarByte = 1) :
    Post (fun _ => True) HostError.IsRefusal
      (binaryOperation D op types resultType checkHCU ctx lhs rhs scalarByte s) := by
  apply Post.bind (verifyAndReturnType_post ht hmem)
  rintro _ rfl
  apply Post.bind (binaryOp_post hlhs ht hrhs)
  rintro ⟨result, s'⟩ _
  exact Post.bind (hcheck _ _) fun _ _ => Post.pure trivial

/-- Divisions are refused where the divisor is no scalar or is zero; beyond that all binary
operations run the same course. -/
theorem binaryCall_post {op : BinaryOperator} {lhs rhs : Bytes32} {scalarByte : UInt8}
    (hwell : WellTyped (.binary op lhs rhs scalarByte))
    (hallowed : ∀ operand ∈ (ExecutorCall.binary op lhs rhs scalarByte).operands,
      isAllowed D operand ctx.sender s.acl = true) :
    Post (fun _ => True) HostError.IsRefusal (binaryCall D op ctx lhs rhs scalarByte s) := by
  obtain ⟨t, hmem, ht, hscalar, hdivision⟩ := hwell
  have hlhs : isAllowed D lhs ctx.sender s.acl = true := hallowed lhs (by
    simp only [ExecutorCall.operands]
    split_ifs <;> simp)
  have hrhs : scalarByte = 0 ∧ isAllowed D rhs ctx.sender s.acl = true ∧ typeOf rhs = some t ∨
      scalarByte = 1 := by
    obtain ⟨rfl, hrhs⟩ | rfl := hscalar
    · exact .inl ⟨rfl, hallowed rhs (by simp [ExecutorCall.operands]), hrhs⟩
    · exact .inr rfl
  obtain ⟨cost, hcost⟩ := op.cost_of_supported hmem (hscalar.imp_left And.left)
  have hregular : ∀ {table : BinaryHCU} {types : List FheType} {resultType : FheType → FheType},
      table.cost t scalarByte = some cost → t ∈ types →
        Post (fun _ => True) HostError.IsRefusal (binaryOperation D op types resultType
          (checkHCUForBinary D table) ctx lhs rhs scalarByte s) := fun hcost hmem =>
    binaryOperation_post (fun _ _ => checkHCUForBinary_post hcost) hlhs ht hmem hrhs
  have hdivide : ∀ {table : HCUTable} {types : List FheType} {resultType : FheType → FheType},
      op.IsDivision → table.lookup t = some cost → t ∈ types →
        Post (fun _ => True) HostError.IsRefusal (do
          require (scalarByte = 0x01) .isNotScalar
          require (rhs ≠ 0) .divisionByZero
          binaryOperation D op types resultType (checkHCUForScalar D table) ctx lhs rhs scalarByte
            s) := by
    intro table types resultType hop hcost hmem
    obtain ⟨hone, hne⟩ := hdivision hop
    apply Post.bind (Post.require_of hone)
    intro _ _
    apply Post.bind (Post.require_of hne)
    intro _ _
    exact binaryOperation_post (fun _ _ => checkHCUForScalar_post hone hcost) hlhs ht hmem hrhs
  cases op with
  | fheDiv => exact hdivide (.inl rfl) hcost hmem
  | fheRem => exact hdivide (.inr rfl) hcost hmem
  | _ => exact hregular hcost hmem

theorem unaryOperation_post {op : UnaryOperator} {types : List FheType} {table : HCUTable}
    {ct : Bytes32} {t : FheType} {cost : Nat} (hallowed : isAllowed D ct ctx.sender s.acl = true)
    (ht : typeOf ct = some t) (hmem : t ∈ types) (hcost : table.lookup t = some cost) :
    Post (fun _ => True) HostError.IsRefusal
      (unaryOperation D op types (checkHCUForUnary D table) ctx ct s) := by
  apply Post.bind (verifyAndReturnType_post ht hmem)
  rintro _ rfl
  apply Post.bind (Q := fun _ => True)
  · apply Post.bind (checkAllowed_post hallowed)
    intro _ _
    apply Post.bind (handleType_post ht)
    intro _ _
    exact Post.bind allowResult_post fun _ _ => Post.pure trivial
  · intro _ _
    exact Post.bind (checkHCUForUnary_post hcost) fun _ _ => Post.pure trivial

theorem fheIfThenElse_post {control ifTrue ifFalse : Bytes32}
    (hwell : WellTyped (.fheIfThenElse control ifTrue ifFalse))
    (hallowed : ∀ operand ∈ [control, ifTrue, ifFalse],
      isAllowed D operand ctx.sender s.acl = true) :
    Post (fun _ => True) HostError.IsRefusal
      (FHEVMExecutor.fheIfThenElse D ctx control ifTrue ifFalse s) := by
  obtain ⟨hcontrol, t, hmem, htrue, hfalse⟩ := hwell
  have hpriced : ∀ t ∈ boolAndUint8To160And256, (ifThenElseHCU.lookup t).isSome := by decide
  obtain ⟨cost, hcost⟩ := Option.isSome_iff_exists.mp (hpriced t hmem)
  apply Post.bind (verifyAndReturnType_post htrue hmem)
  rintro _ rfl
  apply Post.bind (Q := fun _ => True)
  · apply Post.bind (checkAllowed_post (hallowed control (by simp)))
    intro _ _
    apply Post.bind (checkAllowed_post (hallowed ifTrue (by simp)))
    intro _ _
    apply Post.bind (checkAllowed_post (hallowed ifFalse (by simp)))
    intro _ _
    apply Post.bind (handleType_post hcontrol)
    rintro _ rfl
    apply Post.bind (handleType_post htrue)
    rintro _ rfl
    apply Post.bind (handleType_post hfalse)
    rintro _ rfl
    apply Post.bind (Post.require_of rfl)
    intro _ _
    apply Post.bind (Post.require_of rfl)
    intro _ _
    exact Post.bind allowResult_post fun _ _ => Post.pure trivial
  · intro _ _
    exact Post.bind (checkHCUForIfThenElse_post hcost) fun _ _ => Post.pure trivial

theorem cast_post {ct : Bytes32} {toType : FheType} (hwell : WellTyped (.cast ct toType))
    (hallowed : isAllowed D ct ctx.sender s.acl = true) :
    Post (fun _ => True) HostError.IsRefusal (FHEVMExecutor.cast D ctx ct toType s) := by
  obtain ⟨hto, t, hmem, ht, hne⟩ := hwell
  have hpriced : ∀ t ∈ uint8To256, (castHCU.lookup t).isSome := by decide
  obtain ⟨cost, hcost⟩ := Option.isSome_iff_exists.mp (hpriced toType hto)
  apply Post.bind (checkAllowed_post hallowed)
  intro _ _
  apply Post.bind (verifyAndReturnType_post ht hmem)
  rintro _ rfl
  apply Post.bind (Post.require_of hto)
  intro _ _
  apply Post.bind (Post.require_of hne)
  intro _ _
  apply Post.bind (checkHCUForUnary_post hcost)
  intro _ _
  exact Post.bind allowResult_post fun _ _ => Post.pure trivial

theorem trivialEncrypt_post {pt : BitVec 256} {toType : FheType}
    (hto : toType ∈ boolAndUint8To160And256) :
    Post (fun _ => True) HostError.IsRefusal (FHEVMExecutor.trivialEncrypt D ctx pt toType s) := by
  have hpriced : ∀ t ∈ boolAndUint8To160And256, (trivialEncryptHCU.lookup t).isSome := by decide
  obtain ⟨cost, hcost⟩ := Option.isSome_iff_exists.mp (hpriced toType hto)
  apply Post.bind (Post.require_of hto)
  intro _ _
  apply Post.bind (checkHCUForSource_post hcost)
  intro _ _
  exact Post.bind allowResult_post fun _ _ => Post.pure trivial

/-- An operation with operands of the right types that its caller may use is refused for its price,
or because the access control list is paused. -/
theorem executorCall_post {call : ExecutorCall} (hcall : call.isOperator = true)
    (hwell : WellTyped call)
    (hallowed : ∀ operand ∈ call.operands, isAllowed D operand ctx.sender s.acl = true) :
    Post (fun _ => True) HostError.IsRefusal (executorCall D V ctx s call) := by
  cases call with
  | binary op lhs rhs scalarByte => exact binaryCall_post hwell hallowed
  | unary op ct =>
    obtain ⟨t, hmem, ht⟩ := hwell
    obtain ⟨cost, hcost⟩ := op.cost_of_supported hmem
    have hct := hallowed ct (by simp [ExecutorCall.operands])
    cases op with
    | fheNeg => exact unaryOperation_post hct ht hmem hcost
    | fheNot => exact unaryOperation_post hct ht hmem hcost
  | fheIfThenElse control ifTrue ifFalse => exact fheIfThenElse_post hwell hallowed
  | cast ct toType => exact cast_post hwell (hallowed ct (by simp [ExecutorCall.operands]))
  | trivialEncrypt pt toType => exact trivialEncrypt_post hwell
  | _ => cases hcall

end Operations

end Fhevm.Host
