import Fhevm.Host.Handles
import Fhevm.Host.Permissions
import Fhevm.Listener.Replay

/-!
# Every accepted operation can be evaluated

The executor accepts fewer types than the coprocessor evaluates. An operation
that it accepted passes the check of the operands and is evaluated to a ciphertext of
the type that the executor wrote into the handle of the result.

## Main definitions

* `BinaryOperator.tfheTypes`, `BinaryOperator.tfheResultType` — what the evaluator takes and gives.
* `Evaluates` — the computation of an event is evaluated to a type.
* `replay_typed` — the events of a run, in any dependence order.
-/

namespace Fhevm.Listener

open Foundation Contract Host Worker Scheduler

variable {R : Type} {lib : TfheLibrary R} {store : Ciphertexts R} {tenantId : ℤ} {now : ℕ}

/-! ## The types of the evaluator -/

/-- The types that the evaluator takes for an operator. -/
def tfheTypes : BinaryOperator → List FheTypes
  | .fheBitAnd | .fheBitOr | .fheBitXor | .fheEq | .fheNe => boolToBytes256
  | .fheShl | .fheShr | .fheRotl | .fheRotr => uint4ToBytes256
  | _ => uint4To256

def tfheResultType : BinaryOperator → FheTypes → FheTypes
  | .fheEq | .fheNe | .fheGe | .fheGt | .fheLe | .fheLt => fun _ => .fheBool
  | _ => id

/-- The types with the numbers of some types of the executor are types of the evaluator. -/
def Covers (types : List FheTypes) (supportedTypes : List FheType) : Prop :=
  ∀ t ∈ supportedTypes, t.toNat ∈ types.map FheTypes.num

instance (types : List FheTypes) (supportedTypes : List FheType) :
    Decidable (Covers types supportedTypes) :=
  inferInstanceAs (Decidable (∀ t ∈ supportedTypes, t.toNat ∈ types.map FheTypes.num))

theorem Covers.mem {types : List FheTypes} {supportedTypes : List FheType}
    (h : Covers types supportedTypes) {t : FheType} (ht : t ∈ supportedTypes) {t' : FheTypes}
    (hnum : t'.num = t.toNat) : t' ∈ types := by
  obtain ⟨t'', hmem, heq⟩ := List.mem_map.mp (h t ht)
  obtain rfl : t'' = t' := FheTypes.num_injective (heq.trans hnum.symm)
  exact hmem

theorem covers_tfheTypes (op : BinaryOperator) : Covers (tfheTypes op) op.supportedTypes := by
  cases op <;> decide

theorem num_tfheResultType (op : BinaryOperator) {t : FheType} {t' : FheTypes}
    (hnum : t'.num = t.toNat) : (tfheResultType op t').num = (op.resultType t).toNat := by
  cases op <;> first | exact hnum | rfl

@[simp] theorem doesHaveMoreThanOneScalar_binaryToOp (op : BinaryOperator) :
    (binaryToOp op).doesHaveMoreThanOneScalar = false := by
  cases op <;> rfl

theorem opType_binaryToOp (op : BinaryOperator) : (binaryToOp op).opType = .binary := by
  cases op <;> rfl

theorem binaryToOp_fheDiv {op : BinaryOperator} (h : binaryToOp op = .fheDiv) : op.IsDivision := by
  cases op <;> first | exact .inl rfl | cases h

/-- All binary operators but the divisions are evaluated alike. -/
theorem performFheOperation_binary {op : BinaryOperator} (hdiv : ¬ op.IsDivision)
    (inputOperands : List (SupportedFheCiphertexts R)) :
    performFheOperation lib (binaryToOp op).toInt inputOperands =
      performBinary lib (binaryToOp op) (tfheTypes op) (tfheResultType op) inputOperands := by
  cases op <;> first | rfl | exact absurd (.inl rfl) hdiv | exact absurd (.inr rfl) hdiv

/-- The type of a number that the executor accepts. -/
theorem Covers.exists_num {types : List FheTypes} {supportedTypes : List FheType}
    (h : Covers types supportedTypes) {t : FheType} (ht : t ∈ supportedTypes) :
    ∃ t' : FheTypes, t'.num = t.toNat := by
  obtain ⟨t', -, heq⟩ := List.mem_map.mp (h t ht)
  exact ⟨t', heq⟩

/-- The operand that stands for a type reads as its number. -/
theorem asI16_ty (t : FheType) : asI16 (toBeU16Bit (ty t)) = t.toNat := by
  have hlt := t.toNat_lt
  have hdecode : toBeU16Bit (ty t) = t.toNat := by
    rw [toBeU16Bit, toConstantSizeArray, BigEndian.decode_lastBytes]
    simp only [ty, BigEndian.decode, List.foldl_cons, List.foldl_nil, UInt8.toNat_ofNat']
    omega
  rw [asI16, hdecode, if_pos (by omega)]

theorem asBytes_ne_nil (x : BitVec 256) : asBytes x ≠ [] := by
  apply List.ne_nil_of_length_pos
  rw [asBytes, wordBytes, BigEndian.length_encode]
  norm_num

theorem trivialEncryptBeBytes_ok (lib : TfheLibrary R) (t : FheTypes) (bytes : List UInt8) :
    ∃ r, trivialEncryptBeBytes lib t.num bytes = .ok (.enc t r) := by
  cases t <;> simp [trivialEncryptBeBytes]

theorem generateRandomNumber_ok (lib : TfheLibrary R) (t : FheTypes) (seed : ℕ)
    (upperBound : Option (List UInt8)) :
    ∃ r, generateRandomNumber lib t.num seed upperBound = .ok (.enc t r) := by
  cases t <;> simp [generateRandomNumber]

theorem performCast_ok (lib : TfheLibrary R) {op : List UInt8} {out : FheTypes}
    (hop : asI16 (toBeU16Bit op) = out.num) (s : FheTypes) (a : R) :
    ∃ r, performCast lib [.enc s a, .scalar op] = .ok (.enc out r) := by
  simp only [performCast, hop, Nat.cast_inj]
  by_cases hsame : out.num = s.num
  · exact ⟨a, by rw [if_pos hsame, FheTypes.num_injective hsame]⟩
  · rw [if_neg hsame, FheTypes.ofNum?_num]
    cases out <;> simp

/-- The operators whose divisor can be zero after it is cut to its width. -/
def IsDivision : ExecutorCall → Prop
  | .binary op _ _ _ => op.IsDivision
  | _ => False

/-! ## One computation -/

/-- The computation of an event is evaluated to a ciphertext of a type. -/
def Evaluates (lib : TfheLibrary R) (tenantId : ℤ) (now : ℕ) (store : Ciphertexts R)
    (log : LogTfhe) (result : Bytes32) (type : FheType) : Prop :=
  ∃ t c, replayEvent lib tenantId now store log =
    .ok (Function.update store (wordBytes result) (some (.enc t c))) ∧ t.num = type.toNat

theorem mapM_operandValue_nil :
    ([] : List (DFGTaskInput R)).mapM (operandValue store) = .ok [] := rfl

theorem mapM_operandValue_value {ct : SupportedFheCiphertexts R} {inputs : List (DFGTaskInput R)}
    {cts : List (SupportedFheCiphertexts R)} (h : inputs.mapM (operandValue store) = .ok cts) :
    (.value ct :: inputs).mapM (operandValue store) = .ok (ct :: cts) := by
  rw [List.mapM_cons, h]
  rfl

theorem mapM_operandValue_dependence {handle : Handle} {ct : SupportedFheCiphertexts R}
    {inputs : List (DFGTaskInput R)} {cts : List (SupportedFheCiphertexts R)}
    (hct : store handle = some ct) (h : inputs.mapM (operandValue store) = .ok cts) :
    (.dependence handle :: inputs).mapM (operandValue store) = .ok (ct :: cts) := by
  rw [List.mapM_cons, h, operandValue, hct]
  rfl

/-- An event whose operands pass the check and are there. -/
theorem evaluates_of (fheOp : SupportedFheOperations) (inputs : List (DFGTaskInput R))
    {log : LogTfhe} {c : Worker.Computation} {result : Bytes32}
    {cts : List (SupportedFheCiphertexts R)} {t : FheTypes} {r : R} {type : FheType}
    (hrow : insertTfheEvent tenantId now log = some c) (houtput : c.outputHandle = wordBytes result)
    (hop : c.fheOperation = fheOp.toInt)
    (hcheck : checkFheOperandTypes fheOp.toInt c.dependencies
      (isScalarOpVec fheOp c.isScalar c.dependencies.length) = .ok ())
    (hinputs : c.inputs fheOp = inputs) (hvalues : inputs.mapM (operandValue store) = .ok cts)
    (hperform : performFheOperation lib fheOp.toInt cts = .ok (.enc t r))
    (hnum : t.num = type.toNat) : Evaluates lib tenantId now store log result type := by
  have htoOp : c.toOp = .ok (⟨c.outputHandle, fheOp, inputs, c.isAllowed⟩ : DFGOp R) := by
    rw [Computation.toOp, hop, SupportedFheOperations.tryFrom_toInt]
    simp only [hcheck, hinputs]
    rfl
  refine ⟨t, r, ?_, hnum⟩
  rw [replayEvent, hrow, ← houtput]
  simp only [replayComputation, htoOp, ofOperation, Except.mapError, bind_eq_ok, pure_eq_ok]
  exact ⟨_, rfl, cts, hvalues, _, by rw [hperform], rfl⟩

/-! ## The operations of the executor -/

section Operations

variable {transactionHash : Handle} {allowed : Bool} {caller : Address} {result : Bytes32}

/-- Binary operators other than the divisions. -/
theorem evaluates_binary (hstore : Typed store) {op : BinaryOperator} (hdiv : ¬ op.IsDivision)
    {lhs rhs : Bytes32} {scalarByte : UInt8} {t : FheType} (ht : t ∈ op.supportedTypes)
    (hlhs : typeOf lhs = some t)
    (hscalar : scalarByte = 0 ∧ typeOf rhs = some t ∨ scalarByte = 1)
    (havailable : ∀ handle ∈ operandsOf (.binary op caller lhs rhs scalarByte result),
      (store (wordBytes handle)).isSome) :
    Evaluates lib tenantId now store
      ⟨.binary op caller lhs rhs scalarByte result, transactionHash, allowed⟩ result
        (op.resultType t) := by
  have hcheck : ∀ isScalar, checkFheOperandTypes (binaryToOp op).toInt
      [wordBytes lhs, wordBytes rhs] (isScalarOpVec (binaryToOp op) isScalar 2) = .ok () :=
    fun isScalar => check_binary (opType_binaryToOp op) _ _ isScalar
      (fun _ heq => absurd (binaryToOp_fheDiv heq) hdiv)
  obtain ⟨s, a, ha, hs⟩ := hstore.operand hlhs (havailable lhs (by
    rw [operandsOf]; split_ifs <;> simp))
  have hmem : s ∈ tfheTypes op := (covers_tfheTypes op).mem ht hs
  obtain ⟨rfl, hrhs⟩ | rfl := hscalar
  · obtain ⟨s', b, hb, hs'⟩ := hstore.operand hrhs (havailable rhs (by simp [operandsOf]))
    obtain rfl : s = s' := FheTypes.num_injective (hs.trans hs'.symm)
    have hperform : performFheOperation lib (binaryToOp op).toInt [.enc s a, .enc s b] =
        .ok (.enc (tfheResultType op s) (lib.binary (binaryToOp op) s a b)) := by
      rw [performFheOperation_binary hdiv, performBinary, if_pos ⟨rfl, hmem⟩]
    exact evaluates_of (binaryToOp op) [.dependence (wordBytes lhs), .dependence (wordBytes rhs)]
      rfl rfl rfl (hcheck false)
      (by simp [Computation.inputs, insertComputation, insertComputationBytes, isOperandScalar])
      (mapM_operandValue_dependence ha (mapM_operandValue_dependence hb mapM_operandValue_nil))
      hperform (num_tfheResultType op hs)
  · have hperform : performFheOperation lib (binaryToOp op).toInt
        [.enc s a, .scalar (wordBytes rhs)] = .ok (.enc (tfheResultType op s)
          (lib.binaryScalar (binaryToOp op) s a (scalarOperand s (wordBytes rhs)))) := by
      rw [performFheOperation_binary hdiv, performBinary, if_pos hmem]
    exact evaluates_of (binaryToOp op)
      [.dependence (wordBytes lhs), .value (.scalar (wordBytes rhs))] rfl rfl rfl (hcheck true)
      (by simp [Computation.inputs, insertComputation, insertComputationBytes, isOperandScalar])
      (mapM_operandValue_dependence ha (mapM_operandValue_value mapM_operandValue_nil))
      hperform (num_tfheResultType op hs)

theorem evaluates_unary (hstore : Typed store) {op : UnaryOperator} {ct : Bytes32} {t : FheType}
    (ht : t ∈ op.supportedTypes) (hct : typeOf ct = some t)
    (havailable : ∀ handle ∈ operandsOf (.unary op caller ct result),
      (store (wordBytes handle)).isSome) :
    Evaluates lib tenantId now store
      ⟨.unary op caller ct result, transactionHash, allowed⟩ result t := by
  obtain ⟨s, a, ha, hs⟩ := hstore.operand hct (havailable ct (by simp [operandsOf]))
  have hvalues : [.dependence (wordBytes ct)].mapM (operandValue store) = .ok [.enc s a] :=
    mapM_operandValue_dependence ha mapM_operandValue_nil
  cases op with
  | fheNeg =>
    have hmem : s ∈ uint4To256 :=
      (show Covers uint4To256 UnaryOperator.fheNeg.supportedTypes by decide).mem ht hs
    have hperform : performFheOperation lib SupportedFheOperations.fheNeg.toInt [.enc s a] =
        .ok (.enc s (lib.unary .fheNeg s a)) := if_pos hmem
    exact evaluates_of .fheNeg [.dependence (wordBytes ct)] rfl rfl rfl rfl rfl hvalues hperform hs
  | fheNot =>
    have hmem : s ∈ boolToBytes256 :=
      (show Covers boolToBytes256 UnaryOperator.fheNot.supportedTypes by decide).mem ht hs
    have hperform : performFheOperation lib SupportedFheOperations.fheNot.toInt [.enc s a] =
        .ok (.enc s (lib.unary .fheNot s a)) := if_pos hmem
    exact evaluates_of .fheNot [.dependence (wordBytes ct)] rfl rfl rfl rfl rfl hvalues hperform hs

theorem evaluates_ifThenElse (hstore : Typed store) {control ifTrue ifFalse : Bytes32} {t : FheType}
    (hcontrol : typeOf control = some .bool) (htrue : typeOf ifTrue = some t)
    (hfalse : typeOf ifFalse = some t)
    (havailable : ∀ handle ∈ operandsOf (.fheIfThenElse caller control ifTrue ifFalse result),
      (store (wordBytes handle)).isSome) :
    Evaluates lib tenantId now store
      ⟨.fheIfThenElse caller control ifTrue ifFalse result, transactionHash, allowed⟩ result t := by
  obtain ⟨s, flag, hflag, hs⟩ := hstore.operand hcontrol (havailable control (by simp [operandsOf]))
  obtain ⟨s₁, a, ha, hs₁⟩ := hstore.operand htrue (havailable ifTrue (by simp [operandsOf]))
  obtain ⟨s₂, b, hb, hs₂⟩ := hstore.operand hfalse (havailable ifFalse (by simp [operandsOf]))
  obtain rfl : s = .fheBool := FheTypes.num_injective hs
  obtain rfl : s₁ = s₂ := FheTypes.num_injective (hs₁.trans hs₂.symm)
  have hperform : performFheOperation lib SupportedFheOperations.fheIfThenElse.toInt
      [.enc .fheBool flag, .enc s₁ a, .enc s₁ b] = .ok (.enc s₁ (lib.select s₁ flag a b)) := if_pos rfl
  exact evaluates_of .fheIfThenElse [.dependence (wordBytes control), .dependence (wordBytes ifTrue),
      .dependence (wordBytes ifFalse)] rfl rfl rfl rfl rfl
    (mapM_operandValue_dependence hflag (mapM_operandValue_dependence ha
      (mapM_operandValue_dependence hb mapM_operandValue_nil))) hperform hs₁

theorem evaluates_cast (hstore : Typed store) {ct : Bytes32} {t toType : FheType}
    (hto : toType ∈ FHEVMExecutor.uint8To256) (hct : typeOf ct = some t)
    (havailable : ∀ handle ∈ operandsOf (.cast caller ct toType result),
      (store (wordBytes handle)).isSome) :
    Evaluates lib tenantId now store
      ⟨.cast caller ct toType result, transactionHash, allowed⟩ result toType := by
  obtain ⟨s, a, ha, -⟩ := hstore.operand hct (havailable ct (by simp [operandsOf]))
  obtain ⟨out, hout⟩ :=
    (show Covers uint4To256 FHEVMExecutor.uint8To256 by decide).exists_num hto
  obtain ⟨r, hr⟩ := performCast_ok lib (by rw [asI16_ty, hout]) s a
  exact evaluates_of .fheCast [.dependence (wordBytes ct), .value (.scalar (ty toType))]
    rfl rfl rfl rfl rfl
    (mapM_operandValue_dependence ha (mapM_operandValue_value mapM_operandValue_nil)) hr hout

theorem evaluates_trivialEncrypt {pt : BitVec 256} {toType : FheType}
    (hto : toType ∈ FHEVMExecutor.boolAndUint8To160And256) :
    Evaluates lib tenantId now store
      ⟨.trivialEncrypt caller pt toType result, transactionHash, allowed⟩ result toType := by
  obtain ⟨out, hout⟩ :=
    (show Covers boolToBytes256 FHEVMExecutor.boolAndUint8To160And256 by decide).exists_num hto
  obtain ⟨r, hr⟩ := trivialEncryptBeBytes_ok lib out (asBytes pt)
  have hperform : performFheOperation lib SupportedFheOperations.fheTrivialEncrypt.toInt
      [.scalar (asBytes pt), .scalar (ty toType)] = .ok (.enc out r) := by
    rw [← hr, hout, ← asI16_ty]
    rfl
  exact evaluates_of .fheTrivialEncrypt [.value (.scalar (asBytes pt)), .value (.scalar (ty toType))]
    rfl rfl rfl rfl rfl
    (mapM_operandValue_value (mapM_operandValue_value mapM_operandValue_nil)) hperform hout

theorem evaluates_rand {randType : FheType} {seed : BitVec 128}
    (htype : randType ∈ FHEVMExecutor.boolAndUint8To256) :
    Evaluates lib tenantId now store
      ⟨.fheRand caller randType seed result, transactionHash, allowed⟩ result randType := by
  obtain ⟨out, hout⟩ :=
    (show Covers boolToBytes256 FHEVMExecutor.boolAndUint8To256 by decide).exists_num htype
  obtain ⟨r, hr⟩ := generateRandomNumber_ok lib out
    (toBeU128Bit (FHEVMExecutor.seedBytes seed)) none
  have hperform : performFheOperation lib SupportedFheOperations.fheRand.toInt
      [.scalar (FHEVMExecutor.seedBytes seed), .scalar (ty randType)] = .ok (.enc out r) := by
    rw [← hr, hout, ← asI16_ty]
    rfl
  have hcheck : checkFheOperandTypes SupportedFheOperations.fheRand.toInt
      [FHEVMExecutor.seedBytes seed, ty randType] (isScalarOpVec .fheRand true 2) = .ok () := by
    have hvalid : ∀ t ∈ FHEVMExecutor.boolAndUint8To256,
        validateFheType ((ty t).getD 0 0).toNat = .ok () := by decide
    exact hvalid randType htype
  exact evaluates_of .fheRand
    [.value (.scalar (FHEVMExecutor.seedBytes seed)), .value (.scalar (ty randType))]
    rfl rfl rfl hcheck rfl
    (mapM_operandValue_value (mapM_operandValue_value mapM_operandValue_nil)) hperform hout

theorem evaluates_randBounded {upperBound : BitVec 256} {randType : FheType} {seed : BitVec 128}
    (htype : randType ∈ FHEVMExecutor.uint8To256) :
    Evaluates lib tenantId now store
      ⟨.fheRandBounded caller upperBound randType seed result, transactionHash, allowed⟩ result
        randType := by
  obtain ⟨out, hout⟩ :=
    (show Covers uint4To256 FHEVMExecutor.uint8To256 by decide).exists_num htype
  obtain ⟨r, hr⟩ := generateRandomNumber_ok lib out
    (toBeU128Bit (FHEVMExecutor.seedBytes seed)) (some (asBytes upperBound))
  have hperform : performFheOperation lib SupportedFheOperations.fheRandBounded.toInt
      [.scalar (FHEVMExecutor.seedBytes seed), .scalar (asBytes upperBound), .scalar (ty randType)] =
        .ok (.enc out r) := by
    rw [← hr, hout, ← asI16_ty]
    rfl
  exact evaluates_of .fheRandBounded [.value (.scalar (FHEVMExecutor.seedBytes seed)),
      .value (.scalar (asBytes upperBound)), .value (.scalar (ty randType))]
    rfl rfl rfl (check_randBounded _ (asBytes_ne_nil upperBound) rfl) rfl
    (mapM_operandValue_value (mapM_operandValue_value (mapM_operandValue_value
      mapM_operandValue_nil))) hperform hout

/-- Every accepted operation but the divisions. -/
theorem evaluates_wellTyped (lib : TfheLibrary R) (tenantId : ℤ) (now : ℕ) (hstore : Typed store)
    {call : ExecutorCall} (hcall : call.isInput = false) (hdiv : ¬ IsDivision call)
    (htyped : WellTyped call) {seed : BitVec 128} {type : FheType}
    (htype : call.resultType = some type)
    (havailable : ∀ handle ∈ operandsOf (call.event caller seed result),
      (store (wordBytes handle)).isSome) :
    Evaluates lib tenantId now store ⟨call.event caller seed result, transactionHash, allowed⟩
      result type := by
  cases call with
  | binary op lhs rhs scalarByte =>
    obtain ⟨t, ht, hlhs, hscalar, -⟩ := htyped
    rw [ExecutorCall.resultType, hlhs, Option.map_some, Option.some.injEq] at htype
    exact htype ▸ evaluates_binary hstore hdiv ht hlhs hscalar havailable
  | unary op ct =>
    obtain ⟨t, ht, hct⟩ := htyped
    obtain rfl : t = type := Option.some.inj (hct.symm.trans htype)
    exact evaluates_unary hstore ht hct havailable
  | fheIfThenElse control ifTrue ifFalse =>
    obtain ⟨hcontrol, t, -, htrue, hfalse⟩ := htyped
    obtain rfl : t = type := Option.some.inj (htrue.symm.trans htype)
    exact evaluates_ifThenElse hstore hcontrol htrue hfalse havailable
  | fheRand randType =>
    cases htype
    exact evaluates_rand htyped
  | fheRandBounded upperBound randType =>
    cases htype
    exact evaluates_randBounded htyped.1
  | cast ct toType =>
    cases htype
    obtain ⟨hto, t, -, hct, -⟩ := htyped
    exact evaluates_cast hstore hto hct havailable
  | trivialEncrypt pt toType =>
    cases htype
    exact evaluates_trivialEncrypt htyped
  | verifyInput inputHandle userAddress inputProof inputType => cases hcall

end Operations

/-! ## Runs -/

/-- A successful call of a run that is no division emitted the event. -/
def Emitted (K : HostConfig) (calls : List (HostCall K.deployment)) (event : TfheEvent) : Prop :=
  ∃ ctx call past result s', Ran calls (.executor ctx call) past ∧ ¬ IsDivision call ∧
    executorCall K.deployment K.signatures ctx (hostAfter K past) call = .ok ((result, event), s')

section Runs

variable {K : HostConfig} {calls : List (HostCall K.deployment)}

theorem computedBy_event {call : ExecutorCall} (hcall : call.isInput = false) (caller : Address)
    (seed : BitVec 128) (result : Bytes32) :
    computedBy (call.event caller seed result) = some result := by
  cases call <;> first | rfl | cases hcall

/-- The evaluation of the event of a call keeps all types. -/
theorem replayEvent_typed (lib : TfheLibrary R) (tenantId : ℤ) (now : ℕ) (hstore : Typed store)
    {log : LogTfhe} (hemitted : Emitted K calls log.event)
    (havailable : ∀ handle ∈ operandsOf log.event, (store (wordBytes handle)).isSome) :
    ∃ store', replayEvent lib tenantId now store log = .ok store' ∧ Typed store' ∧
      (∀ handle, (store handle).isSome → (store' handle).isSome) ∧
      ∀ result, computedBy log.event = some result → (store' (wordBytes result)).isSome := by
  obtain ⟨event, transactionHash, allowed⟩ := log
  obtain ⟨ctx, call, past, result, s', -, hdiv, hok⟩ := hemitted
  cases hinput : call.isInput with
  | true =>
    cases call with
    | verifyInput inputHandle userAddress inputProof inputType =>
      obtain ⟨-, -, rfl, -⟩ := verifyInput_ok hok
      exact ⟨store, rfl, hstore, fun _ => id, by simp [computedBy]⟩
    | _ => cases hinput
  | false =>
    obtain ⟨htyped, rfl, -⟩ := executorCall_ok hinput hok
    obtain ⟨type, htype, hresult⟩ := result_eq_handleOf hinput hok
    obtain ⟨t, c, hreplay, hnum⟩ :=
      evaluates_wellTyped lib tenantId now hstore hinput hdiv htyped htype havailable
    have hhandle : HasTypeOf (wordBytes result) (.enc t c) := by
      refine ⟨t, c, rfl, ?_⟩
      rw [hnum, hresult]
      exact getCtType_of_typeOf (typeOf_appendMetadataToPrehandle _ _ _)
    refine ⟨_, hreplay, hstore.update hhandle, ?_, ?_⟩
    · intro handle hsome
      by_cases heq : handle = wordBytes result
      · rw [heq, Function.update_self]
        rfl
      · rwa [Function.update_of_ne heq]
    · intro result' hresult'
      rw [computedBy_event hinput, Option.some.injEq] at hresult'
      rw [← hresult', Function.update_self]
      rfl

theorem InDependenceOrder.mono {available available' : Set Bytes32} (hsub : available ⊆ available')
    {logs : List LogTfhe} (h : InDependenceOrder available logs) :
    InDependenceOrder available' logs := by
  induction logs generalizing available available' with
  | nil => exact h
  | cons log logs ih =>
    exact ⟨fun handle hmem => hsub (h.1 handle hmem),
      ih (Set.union_subset_union_left _ hsub) h.2⟩

theorem replay_inOrder {logs : List LogTfhe} (hlogs : ∀ log ∈ logs, Emitted K calls log.event)
    (hstore : Typed store)
    (horder : InDependenceOrder {handle | (store (wordBytes handle)).isSome} logs) :
    ∃ store', replay lib tenantId now store logs = .ok store' ∧ Typed store' ∧
      (∀ handle, (store handle).isSome → (store' handle).isSome) ∧
      ∀ log ∈ logs, ∀ result, computedBy log.event = some result →
        (store' (wordBytes result)).isSome := by
  induction logs generalizing store with
  | nil => exact ⟨store, rfl, hstore, fun _ => id, by simp⟩
  | cons log logs ih =>
    obtain ⟨store₁, hfirst, hstore₁, hkept, hcomputed⟩ :=
      replayEvent_typed lib tenantId now hstore (hlogs log List.mem_cons_self) horder.1
    have horder₁ : InDependenceOrder {handle | (store₁ (wordBytes handle)).isSome} logs := by
      refine horder.2.mono ?_
      rintro handle (hsome | hresult)
      · exact hkept _ hsome
      · exact hcomputed handle hresult
    obtain ⟨store₂, hrest, hstore₂, hkept₂, hcomputed₂⟩ :=
      ih (fun log hlog => hlogs log (List.mem_cons_of_mem _ hlog)) hstore₁ horder₁
    refine ⟨store₂, ?_, hstore₂, fun handle hsome => hkept₂ handle (hkept handle hsome), ?_⟩
    · rw [replay, List.foldlM_cons, hfirst]
      exact hrest
    · intro log' hlog' result hresult
      rcases List.mem_cons.mp hlog' with rfl | hlog'
      · exact hkept₂ _ (hcomputed result hresult)
      · exact hcomputed₂ log' hlog' result hresult

end Runs

/-- The events of a run, in any order in which operands come before their uses, are evaluated
without an error or a panic, and every result is of the type in byte 30 of its handle. -/
theorem replay_typed (lib : TfheLibrary R) (K : HostConfig) (calls : List (HostCall K.deployment))
    (tenantId : ℤ) (now : ℕ) (inputs : Ciphertexts R) (logs : List LogTfhe)
    (hlogs : ∀ log ∈ logs, Emitted K calls log.event) (hinputs : Typed inputs)
    (horder : InDependenceOrder {handle | (inputs (wordBytes handle)).isSome} logs) :
    ∃ store, replay lib tenantId now inputs logs = .ok store ∧
      ∀ log ∈ logs, ∀ result, computedBy log.event = some result →
        ∃ ct, store (wordBytes result) = some ct ∧ ct.typeNum = (byteAt result 30).toNat := by
  obtain ⟨store, hreplay, hstore, -, hcomputed⟩ := replay_inOrder hlogs hinputs horder
  refine ⟨store, hreplay, ?_⟩
  intro log hlog result hresult
  obtain ⟨ct, hct⟩ := Option.isSome_iff_exists.mp (hcomputed log hlog result hresult)
  obtain ⟨t, c, rfl, htype⟩ := hstore _ ct hct
  rw [getCtType_wordBytes, Except.ok.injEq] at htype
  exact ⟨_, hct, by exact_mod_cast htype.symm⟩

/-! ### Clear numbers -/

def clearBinary (op : SupportedFheOperations) (t : FheTypes) (a b : ℕ) : ℕ :=
  let modulus := 2 ^ t.bits
  match op with
  | .fheAdd => (a + b) % modulus
  | .fheSub => (a + (modulus - b)) % modulus
  | .fheMul => a * b % modulus
  | .fheDiv => if b = 0 then modulus - 1 else a / b
  | .fheRem => a % b
  | .fheBitAnd => a &&& b
  | .fheBitOr => a ||| b
  | .fheBitXor => a ^^^ b
  | .fheShl => a <<< (b % t.bits) % modulus
  | .fheShr => a >>> (b % t.bits)
  | .fheRotl => (a <<< (b % t.bits) ||| a >>> (t.bits - b % t.bits)) % modulus
  | .fheRotr => (a >>> (b % t.bits) ||| a <<< (t.bits - b % t.bits)) % modulus
  | .fheEq => (a == b).toNat
  | .fheNe => (a != b).toNat
  | .fheGe => (decide (b ≤ a)).toNat
  | .fheGt => (decide (b < a)).toNat
  | .fheLe => (decide (a ≤ b)).toNat
  | .fheLt => (decide (a < b)).toNat
  | .fheMin => min a b
  | .fheMax => max a b
  | _ => 0

/-- The library that does not encrypt: a ciphertext is the number itself. -/
def clearLibrary : TfheLibrary ℕ where
  binary := clearBinary
  binaryScalar := clearBinary
  unary op t a :=
    match op with
    | .fheNeg => (2 ^ t.bits - a) % 2 ^ t.bits
    | _ => 2 ^ t.bits - 1 - a
  select _ flag a b := if flag = 0 then b else a
  castInto _ t a := a % 2 ^ t.bits
  tryEncryptTrivial t a := a % 2 ^ t.bits
  generateObliviousPseudoRandomBounded _ seed randomBits := seed % 2 ^ randomBits
  generateObliviousPseudoRandom seed := seed % 2

/-- The account 10 encrypts 5 and negates it. -/
def negatingRun : List (HostCall sampleConfig.deployment) :=
  [.executor (sampleContext 10) (.unary .fheNeg sharedHandle),
    .executor (sampleContext 10) (.trivialEncrypt 5 .uint8)]

def negatedHandle : Bytes32 := FHEVMExecutor.handleOf sampleConfig.deployment
  ((ExecutorCall.unary .fheNeg sharedHandle).preimage sampleConfig.deployment 0) .uint8

def negatingLogs : List LogTfhe :=
  [⟨.trivialEncrypt 10 5 .uint8 sharedHandle, [1], false⟩,
    ⟨.unary .fheNeg 10 sharedHandle negatedHandle, [1], true⟩]

theorem negatingLogs_typed : ∃ store : Ciphertexts ℕ,
    replay clearLibrary 1 0 (fun _ => none) negatingLogs = .ok store ∧
      ∃ ct, store (wordBytes negatedHandle) = some ct ∧ ct.typeNum = 2 := by
  have hencrypt : Emitted sampleConfig negatingRun (.trivialEncrypt 10 5 .uint8 sharedHandle) :=
    ⟨sampleContext 10, .trivialEncrypt 5 .uint8, [], sharedHandle, _, (Ran.head _ _).tail, id, rfl⟩
  have hneg : (executorCall sampleConfig.deployment sampleConfig.signatures (sampleContext 10)
      (hostAfter sampleConfig [.executor (sampleContext 10) (.trivialEncrypt 5 .uint8)])
        (.unary .fheNeg sharedHandle)).map Prod.fst =
          .ok (negatedHandle, .unary .fheNeg 10 sharedHandle negatedHandle) := by
    decide +kernel
  obtain ⟨⟨_, s'⟩, hcall, rfl⟩ := map_eq_ok.mp hneg
  have hlogs : ∀ log ∈ negatingLogs, Emitted sampleConfig negatingRun log.event := by
    intro log hlog
    rcases List.mem_cons.mp hlog with rfl | hlog
    · exact hencrypt
    · rw [List.mem_singleton.mp hlog]
      exact ⟨sampleContext 10, .unary .fheNeg sharedHandle, _, negatedHandle, s', Ran.head _ _, id,
        hcall⟩
  have horder : InDependenceOrder
      {handle | ((fun _ => none : Ciphertexts ℕ) (wordBytes handle)).isSome} negatingLogs := by
    refine ⟨by simp [operandsOf], ?_, trivial⟩
    intro handle hhandle
    rw [List.mem_singleton.mp hhandle]
    exact .inr rfl
  obtain ⟨store, hreplay, hcomputed⟩ := replay_typed clearLibrary sampleConfig negatingRun 1 0
    (fun _ => none) negatingLogs hlogs (by intro _ _ h; cases h) horder
  obtain ⟨ct, hct, htype⟩ := hcomputed _ (List.mem_cons_of_mem _ List.mem_cons_self) negatedHandle rfl
  exact ⟨store, hreplay, ct, hct, htype.trans (by decide +kernel)⟩

end Fhevm.Listener
