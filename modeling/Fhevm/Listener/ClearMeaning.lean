import Fhevm.Host.ConsistentTexts
import Fhevm.Listener.CheckedOperands
import Fhevm.Listener.ScalarOperands
import Fhevm.Scheduler.Meaning

/-!
# The evaluator computes the clear texts

Given an FHE library that computes what the clear texts say, the evaluator takes ciphertexts of
the operands of an event to a ciphertext of its result.

## Main definitions

* `Homomorphic` — a library that computes the clear texts.
* `StandsFor` — the ciphertext of a handle decrypts to its clear text.
* `rowInputs`, `fheOpOf` — the operation that the worker reads off the row of an event.
* `performs_event` — the evaluator keeps what ciphertexts stand for.
-/

namespace Fhevm.Listener

open Foundation Host Worker Scheduler FHEVMExecutor

variable {R : Type} {lib : TfheLibrary R} {decrypt : FheTypes → R → ℕ}
  {value : BinaryOperator → FheTypes → ℕ → ℕ → ℕ}

/-! ## The library -/

/-- The library computes the clear texts of all operations that the executor accepts. -/
structure Homomorphic (lib : TfheLibrary R) (decrypt : FheTypes → R → ℕ)
    (value : BinaryOperator → FheTypes → ℕ → ℕ → ℕ) : Prop extends
    Computes lib decrypt value where
  value_eq {op : BinaryOperator} {t : FheType} {t' : FheTypes} (ht : t ∈ op.supportedTypes)
    (hnum : t'.num = t.toNat) {x y : ℕ} (hx : x < 2 ^ t'.bits) (hy : y < 2 ^ t'.bits) :
      (op.IsDivision → y ≠ 0) → value op t' x y = op.clearText t'.bits x y
  unary {op : UnaryOperator} {t : FheType} {t' : FheTypes} (ht : t ∈ op.supportedTypes)
    (hnum : t'.num = t.toNat) (a : R) :
      decrypt t' (lib.unary (unaryToOp op) t' a) = op.clearText t'.bits (decrypt t' a)
  select (t : FheTypes) (flag a b : R) : decrypt t (lib.select t flag a b) =
    if decrypt .fheBool flag = 1 then decrypt t a else decrypt t b

/-- The number that the library draws. -/
def drawnNumber (lib : TfheLibrary R) (decrypt : FheTypes → R → ℕ) (t : FheType)
    (seed : BitVec 128) (upperBound : Option (BitVec 256)) : ℕ :=
  match generateRandomNumber lib t.toNat (toBeU128Bit (seedBytes seed))
      (upperBound.map asBytes) with
  | .ok (.enc t' c) => decrypt t' c
  | _ => 0

/-! ## Widths -/

/-- The two sides agree on the width of the types that the executor accepts. -/
theorem bits_eq_numBits {t : FheType} (ht : t ∈ boolAndUint8To160And256) {t' : FheTypes}
    (hnum : t'.num = t.toNat) : t'.bits = t.numBits := by
  have hall : ∀ t ∈ boolAndUint8To160And256, ∀ t' ∈ boolToBytes256, t'.num = t.toNat →
      t'.bits = t.numBits := by decide
  refine hall t ht t' ?_ hnum
  cases t' <;> decide

theorem boolAndUint8To256_subset : boolAndUint8To256 ⊆ boolAndUint8To160And256 := by decide

theorem supportedTypes_subset (op : BinaryOperator) :
    op.supportedTypes ⊆ boolAndUint8To160And256 := by
  cases op <;> decide

theorem unarySupportedTypes_subset (op : UnaryOperator) :
    op.supportedTypes ⊆ boolAndUint8To160And256 := by
  cases op <;> decide

/-- A scalar that fits is not cut. -/
theorem scalarOperand_of_lt {t : FheTypes} {x : Bytes32} (hx : x.toNat < 2 ^ t.bits) :
    scalarOperand t (wordBytes x) = x.toNat := by
  by_cases ht : t = .fheBool
  · subst ht
    rw [scalarOperand_fheBool]
    by_cases hzero : x = 0
    · subst hzero
      decide
    · have hany : arrNonZero (wordBytes x) = true := by
        have hall := all_zero_wordBytes hzero
        rw [arrNonZero, List.any_eq_true]
        rw [List.all_eq_false] at hall
        obtain ⟨b, hb, hne⟩ := hall
        exact ⟨b, hb, by simpa using hne⟩
      have hpos : x.toNat ≠ 0 := fun h => hzero (BitVec.eq_of_toNat_eq h)
      have hlt : x.toNat < 2 := hx
      rw [hany, Bool.toNat_true]
      omega
  · rw [scalarOperand_eq ht, decode_wordBytes, Nat.mod_eq_of_lt hx]

/-- A number that fits is encrypted trivially as it is. -/
theorem trivialOperand_of_lt {t : FheTypes} {x : BitVec 256} (hx : x.toNat < 2 ^ t.bits) :
    trivialOperand t (asBytes x) = x.toNat := by
  unfold trivialOperand
  split_ifs with ht
  · subst ht
    have hbit : x = 0 ∨ x = 1 := by
      have hlt : x.toNat < 2 := hx
      bv_omega
    obtain rfl | rfl := hbit <;> decide
  · rw [asBytes, decode_wordBytes, Nat.mod_eq_of_lt hx]

/-! ## What ciphertexts stand for -/

/-- The ciphertext is of the type of the handle, and it decrypts to the clear text. -/
def StandsFor (decrypt : FheTypes → R → ℕ) (clear : ClearTexts) (handle : Handle)
    (ct : SupportedFheCiphertexts R) : Prop :=
  ∃ h t t' c, handle = wordBytes h ∧ typeOf h = some t ∧ t'.num = t.toNat ∧
    ct = .enc t' c ∧ decrypt t' c = clear.text h

section StandsFor

variable {clear : ClearTexts} {handle : Bytes32} {ct : SupportedFheCiphertexts R}

theorem StandsFor.of_typeOf (h : StandsFor decrypt clear (wordBytes handle) ct) {t : FheType}
    (ht : typeOf handle = some t) :
    ∃ t' c, ct = .enc t' c ∧ t'.num = t.toNat ∧ decrypt t' c = clear.text handle := by
  obtain ⟨h', s, t', c, heq, hs, hnum, rfl, hdecrypt⟩ := h
  obtain rfl := wordBytes_injective heq
  obtain rfl : s = t := Option.some.inj (hs.symm.trans ht)
  exact ⟨t', c, rfl, hnum, hdecrypt⟩

theorem StandsFor.hasTypeOf (h : StandsFor decrypt clear (wordBytes handle) ct) :
    HasTypeOf (wordBytes handle) ct := by
  obtain ⟨h', t, t', c, heq, ht, hnum, rfl, -⟩ := h
  exact ⟨t', c, rfl, by rw [heq, getCtType_of_typeOf ht, hnum]⟩

end StandsFor

/-! ## The row of an event -/

/-- The operation of a call. The verification of an input has none. -/
def fheOpOf : ExecutorCall → SupportedFheOperations
  | .binary op _ _ _ => binaryToOp op
  | .unary op _ => unaryToOp op
  | .fheIfThenElse _ _ _ => .fheIfThenElse
  | .cast _ _ => .fheCast
  | .trivialEncrypt _ _ => .fheTrivialEncrypt
  | .fheRand _ => .fheRand
  | .fheRandBounded _ _ => .fheRandBounded
  | .verifyInput _ _ _ _ => .fheGetInputCiphertext

/-- The operands that the worker reads off the row of the event of a call. -/
def rowInputs (R : Type) (seed : BitVec 128) : ExecutorCall → List (DFGTaskInput R)
  | .binary _ lhs rhs scalarByte => [.dependence (wordBytes lhs),
      if scalarByte = 0 then .dependence (wordBytes rhs) else .value (.scalar (wordBytes rhs))]
  | .unary _ ct => [.dependence (wordBytes ct)]
  | .fheIfThenElse control ifTrue ifFalse => [.dependence (wordBytes control),
      .dependence (wordBytes ifTrue), .dependence (wordBytes ifFalse)]
  | .cast ct toType => [.dependence (wordBytes ct), .value (.scalar (ty toType))]
  | .trivialEncrypt pt toType => [.value (.scalar (asBytes pt)), .value (.scalar (ty toType))]
  | .fheRand randType => [.value (.scalar (seedBytes seed)), .value (.scalar (ty randType))]
  | .fheRandBounded upperBound randType => [.value (.scalar (seedBytes seed)),
      .value (.scalar (asBytes upperBound)), .value (.scalar (ty randType))]
  | .verifyInput _ _ _ _ => []

section Row

variable {call : ExecutorCall} {caller : Address} {seed : BitVec 128} {result : Bytes32}
  {transactionHash : Handle} {allowed : Bool} {tenantId : ℤ} {now : ℕ}

theorem fheOpOf_ne (hcall : call.isInput = false) : fheOpOf call ≠ .fheGetInputCiphertext := by
  intro heq
  cases call with
  | binary op lhs rhs scalarByte =>
    have hbinary := opType_binaryToOp op
    rw [show binaryToOp op = .fheGetInputCiphertext from heq] at hbinary
    cases hbinary
  | unary op ct => cases op <;> cases heq
  | verifyInput inputHandle userAddress inputProof inputType => cases hcall
  | _ => cases heq

theorem length_rowInputs (R : Type) (seed : BitVec 128) (call : ExecutorCall) :
    (rowInputs R seed call).length ≤ 3 := by
  cases call <;> simp [rowInputs]

/-- No operand of a row is a compressed ciphertext. -/
theorem compressed_not_mem_rowInputs {seed : BitVec 128} {call : ExecutorCall} {t : ℤ}
    {c : List UInt8} : DFGTaskInput.compressed t c ∉ rowInputs R seed call := by
  cases call with
  | binary op lhs rhs scalarByte =>
    by_cases hscalar : scalarByte = 0 <;> simp [rowInputs, hscalar]
  | _ => simp [rowInputs]

theorem Computation.outputHandle_toOp {c : Worker.Computation} {handle : Handle}
    {fheOp : SupportedFheOperations} {inputs : List (DFGTaskInput R)}
    (h : c.toOp = .ok ⟨handle, fheOp, inputs, allowed⟩) : c.outputHandle = handle := by
  unfold Worker.Computation.toOp at h
  split at h
  · cases h
  · simp only [bind_eq_ok, pure_eq_ok] at h
    obtain ⟨-, -, hop⟩ := h
    cases hop
    rfl

/-- A row whose operands pass the check. -/
theorem toOp_of_check (fheOp : SupportedFheOperations) {c : Worker.Computation}
    (hop : c.fheOperation = fheOp.toInt)
    (hcheck : checkFheOperandTypes fheOp.toInt c.dependencies
      (isScalarOpVec fheOp c.isScalar c.dependencies.length) = .ok ()) :
    c.toOp = .ok (⟨c.outputHandle, fheOp, c.inputs fheOp, c.isAllowed⟩ : DFGOp R) := by
  rw [Computation.toOp, hop, SupportedFheOperations.tryFrom_toInt]
  simp only [hcheck]
  rfl

/-- The event of an accepted operation has a row, which passes the check of the operands. -/
theorem toOp_event (R : Type) (hcall : call.isInput = false) (htyped : WellTyped call) :
    ∃ c, insertTfheEvent tenantId now ⟨call.event caller seed result, transactionHash, allowed⟩ =
        some c ∧ c.tenantId = tenantId ∧ c.transactionId = transactionHash ∧
      c.toOp = .ok
        (⟨wordBytes result, fheOpOf call, rowInputs R seed call, allowed⟩ : DFGOp R) := by
  cases call with
  | binary op lhs rhs scalarByte =>
    obtain ⟨t, -, -, hscalar, hdiv⟩ := htyped
    have hcheck : checkFheOperandTypes (binaryToOp op).toInt [wordBytes lhs, wordBytes rhs]
        (isScalarOpVec (binaryToOp op) (scalarByte != 0) 2) = .ok () :=
      check_binary (opType_binaryToOp op) _ _ _
        fun _ heq => all_zero_wordBytes (hdiv (binaryToOp_fheDiv heq)).2
    refine ⟨_, rfl, rfl, rfl, (toOp_of_check (binaryToOp op) rfl hcheck).trans ?_⟩
    obtain ⟨rfl, -⟩ | rfl := hscalar
    · simp [rowInputs, fheOpOf, Computation.inputs, insertComputation, insertComputationBytes,
        isOperandScalar]
    · simp [rowInputs, fheOpOf, Computation.inputs, insertComputation, insertComputationBytes,
        isOperandScalar]
  | unary op ct =>
    cases op with
    | fheNeg => exact ⟨_, rfl, rfl, rfl, rfl⟩
    | fheNot => exact ⟨_, rfl, rfl, rfl, rfl⟩
  | fheIfThenElse control ifTrue ifFalse => exact ⟨_, rfl, rfl, rfl, rfl⟩
  | cast ct toType => exact ⟨_, rfl, rfl, rfl, rfl⟩
  | trivialEncrypt pt toType => exact ⟨_, rfl, rfl, rfl, rfl⟩
  | fheRand randType =>
    have hvalid : ∀ t ∈ boolAndUint8To256, validateFheType ((ty t).getD 0 0).toNat = .ok () := by
      decide
    have hcheck : checkFheOperandTypes SupportedFheOperations.fheRand.toInt
        [seedBytes seed, ty randType] (isScalarOpVec .fheRand true 2) = .ok () :=
      hvalid randType htyped
    exact ⟨_, rfl, rfl, rfl, toOp_of_check .fheRand rfl hcheck⟩
  | fheRandBounded upperBound randType =>
    have hcheck := check_randBounded (seedBytes seed) (asBytes_ne_nil upperBound)
      (show (ty randType).length = 1 from rfl)
    exact ⟨_, rfl, rfl, rfl, toOp_of_check .fheRandBounded rfl hcheck⟩
  | verifyInput inputHandle userAddress inputProof inputType => cases hcall

end Row

/-! ## The evaluator -/

section Performs

variable {clear : ClearTexts} {caller : Address} {seed : BitVec 128} {result : Bytes32}

/-- A random number that the executor accepts is drawn. -/
theorem drawnNumber_eq (lib : TfheLibrary R) (decrypt : FheTypes → R → ℕ) {t : FheType}
    (ht : t ∈ boolAndUint8To256) (seed : BitVec 128) (upperBound : Option (BitVec 256)) :
    ∃ t' c, t'.num = t.toNat ∧ generateRandomNumber lib t.toNat (toBeU128Bit (seedBytes seed))
        (upperBound.map asBytes) = .ok (.enc t' c) ∧
      drawnNumber lib decrypt t seed upperBound = decrypt t' c := by
  obtain ⟨t', hnum⟩ := (show Covers boolToBytes256 boolAndUint8To256 by decide).exists_num ht
  obtain ⟨c, hc⟩ := generateRandomNumber_ok lib t' (toBeU128Bit (seedBytes seed))
    (upperBound.map asBytes)
  rw [hnum] at hc
  exact ⟨t', c, hnum, hc, by rw [drawnNumber, hc]⟩

/-- The random numbers of the library. -/
def Homomorphic.randomTexts (hlib : Homomorphic lib decrypt value) : RandomTexts where
  text := drawnNumber lib decrypt
  lt := by
    intro t ht seed upperBound
    obtain ⟨t', c, hnum, -, heq⟩ := drawnNumber_eq lib decrypt ht seed upperBound
    rw [heq, ← bits_eq_numBits (boolAndUint8To256_subset ht) hnum]
    exact hlib.decrypt_lt t' c

/-- The evaluator has a result of a type that decrypts to a number. -/
def Performs (lib : TfheLibrary R) (decrypt : FheTypes → R → ℕ) (fheOp : SupportedFheOperations)
    (cts : List (SupportedFheCiphertexts R)) (type : FheType) (n : ℕ) : Prop :=
  ∃ t c, performFheOperation lib fheOp.toInt cts = .ok (.enc t c) ∧ t.num = type.toNat ∧
    decrypt t c = n

theorem performs_binary (hlib : Homomorphic lib decrypt value) {op : BinaryOperator} {t : FheType}
    (ht : t ∈ op.supportedTypes) {t' : FheTypes} (hnum : t'.num = t.toNat) (a : R)
    {ct : SupportedFheCiphertexts R} {y : ℕ} (hdiv : op.IsDivision → y ≠ 0)
    (hct : (∃ b, ct = .enc t' b ∧ decrypt t' b = y) ∨
      ∃ x : Bytes32, ct = .scalar (wordBytes x) ∧ x.toNat = y ∧ y < 2 ^ t.numBits) :
    Performs lib decrypt (binaryToOp op) [.enc t' a, ct] (op.resultType t)
      (op.clearText (op.resultType t).numBits (decrypt t' a) y) := by
  have hmem : t' ∈ tfheTypes op := (covers_tfheTypes op).mem ht hnum
  have hbits : t'.bits = t.numBits := bits_eq_numBits (supportedTypes_subset op ht) hnum
  rw [clearText_resultType, ← hbits]
  obtain ⟨b, rfl, rfl⟩ | ⟨x, rfl, rfl, hlt⟩ := hct
  · refine ⟨_, _, performFheOperation_enc hmem a b, num_tfheResultType op hnum, ?_⟩
    rw [hlib.binary hmem, hlib.value_eq ht hnum (hlib.decrypt_lt _ _) (hlib.decrypt_lt _ _) hdiv]
  · rw [← hbits] at hlt
    have hscalar := scalarOperand_of_lt hlt
    refine ⟨_, lib.binaryScalar (binaryToOp op) t' a x.toNat, ?_, num_tfheResultType op hnum, ?_⟩
    · rw [performFheOperation_scalar hmem, hscalar, if_neg fun h => hdiv h.1 h.2]
    · rw [hlib.binaryScalar hmem a hlt fun h => hdiv h.1 h.2,
        hlib.value_eq ht hnum (hlib.decrypt_lt _ _) hlt hdiv]

theorem performs_unary (hlib : Homomorphic lib decrypt value) {op : UnaryOperator} {t : FheType}
    (ht : t ∈ op.supportedTypes) {t' : FheTypes} (hnum : t'.num = t.toNat) (a : R) :
    Performs lib decrypt (unaryToOp op) [.enc t' a] t (op.clearText t.numBits (decrypt t' a)) := by
  rw [← bits_eq_numBits (unarySupportedTypes_subset op ht) hnum, ← hlib.unary ht hnum]
  refine ⟨t', _, ?_, hnum, rfl⟩
  cases op with
  | fheNeg =>
    have hmem : t' ∈ uint4To256 :=
      (show Covers uint4To256 UnaryOperator.fheNeg.supportedTypes by decide).mem ht hnum
    exact if_pos hmem
  | fheNot =>
    have hmem : t' ∈ boolToBytes256 :=
      (show Covers boolToBytes256 UnaryOperator.fheNot.supportedTypes by decide).mem ht hnum
    exact if_pos hmem

theorem performs_cast (hlib : Homomorphic lib decrypt value) {toType : FheType}
    (hto : toType ∈ uint8To256) (s : FheTypes) (a : R) :
    Performs lib decrypt .fheCast [.enc s a, .scalar (ty toType)] toType
      (decrypt s a % 2 ^ toType.numBits) := by
  obtain ⟨out, hout⟩ := (show Covers uint4To256 uint8To256 by decide).exists_num hto
  have hmem : out ∈ uint4To256 := (show Covers uint4To256 uint8To256 by decide).mem hto hout
  have hbits := bits_eq_numBits ((show uint8To256 ⊆ boolAndUint8To160And256 by decide) hto) hout
  change ∃ t c, performCast lib [.enc s a, .scalar (ty toType)] = .ok (.enc t c) ∧ _
  rw [performCast, asI16_ty, ← hout, ← hbits]
  by_cases hsame : out.num = s.num
  · obtain rfl := FheTypes.num_injective hsame
    exact ⟨out, a, if_pos rfl, rfl, (Nat.mod_eq_of_lt (hlib.decrypt_lt out a)).symm⟩
  · refine ⟨out, lib.castInto s out a, ?_, rfl, hlib.castInto s out a⟩
    rw [if_neg (by exact_mod_cast hsame), FheTypes.ofNum?_num]
    cases out with
    | fheBool => exact absurd hmem (by decide)
    | _ => rfl

/-- The evaluator takes ciphertexts of the operands to one of the result. -/
theorem performs_event (hlib : Homomorphic lib decrypt value) {call : ExecutorCall}
    (hcall : call.isInput = false) (htyped : WellTyped call) {type : FheType}
    (htype : call.resultType = some type) (hresult : typeOf result = some type)
    (hfits : (call.event caller seed result).Fits)
    (hrespects : clear.Respects hlib.randomTexts (call.event caller seed result))
    {cts : List (SupportedFheCiphertexts R)}
    (hcts : List.Forall₂ (Supplies (StandsFor decrypt clear)) (rowInputs R seed call) cts) :
    Performs lib decrypt (fheOpOf call) cts type (clear.text result) := by
  have hvalue : ∀ n, (call.event caller seed result).clearText clear.text = some n →
      clear.text result = n := fun n hn => by
    rw [← hrespects.evaluates n hn, result_event]
  have hdrawn : ∀ n, (call.event caller seed result).drawnText hlib.randomTexts = some n →
      clear.text result = n := fun n hn => by
    rw [← hrespects.drawn n hn, result_event]
  cases call with
  | binary op lhs rhs scalarByte =>
    obtain ⟨t, ht, hlhs, hscalar, hdiv⟩ := htyped
    rw [ExecutorCall.resultType, hlhs, Option.map_some, Option.some.injEq] at htype
    subst htype
    have htext := hvalue _ rfl
    rw [resultBits_eq hresult] at htext
    cases hcts with
    | cons hleft hrest =>
    cases hrest with
    | cons hright hnil =>
    cases hnil
    have hleft : StandsFor decrypt clear (wordBytes lhs) _ := hleft
    obtain ⟨t', a, rfl, hnum, ha⟩ := hleft.of_typeOf hlhs
    rw [htext, ← ha]
    obtain ⟨rfl, hrhs⟩ | rfl := hscalar
    · have hright : StandsFor decrypt clear (wordBytes rhs) _ := hright
      obtain ⟨s, b, rfl, hs, hb⟩ := hright.of_typeOf hrhs
      obtain rfl : s = t' := FheTypes.num_injective (hs.trans hnum.symm)
      exact performs_binary hlib ht hnum a (fun hd => absurd (hdiv hd).1 (by decide))
        (.inl ⟨b, rfl, hb⟩)
    · have hright : _ = SupportedFheCiphertexts.scalar (wordBytes rhs) := hright
      have hlt : rhs.toNat < 2 ^ resultBits lhs := hfits rfl
      rw [resultBits_eq hlhs] at hlt
      subst hright
      exact performs_binary hlib ht hnum a
        (fun hd h => (hdiv hd).2 (BitVec.eq_of_toNat_eq h)) (.inr ⟨rhs, rfl, rfl, hlt⟩)
  | unary op ct =>
    obtain ⟨t, ht, hct⟩ := htyped
    obtain rfl : t = type := Option.some.inj (hct.symm.trans htype)
    have htext := hvalue _ rfl
    rw [resultBits_eq hresult] at htext
    cases hcts with
    | cons hoperand hnil =>
    cases hnil
    have hoperand : StandsFor decrypt clear (wordBytes ct) _ := hoperand
    obtain ⟨t', a, rfl, hnum, ha⟩ := hoperand.of_typeOf hct
    rw [htext, ← ha]
    exact performs_unary hlib ht hnum a
  | fheIfThenElse control ifTrue ifFalse =>
    obtain ⟨hcontrol, t, -, htrue, hfalse⟩ := htyped
    obtain rfl : t = type := Option.some.inj (htrue.symm.trans htype)
    have htext := hvalue _ rfl
    cases hcts with
    | cons hflag hrest =>
    cases hrest with
    | cons hthen hrest =>
    cases hrest with
    | cons helse hnil =>
    cases hnil
    have hflag : StandsFor decrypt clear (wordBytes control) _ := hflag
    have hthen : StandsFor decrypt clear (wordBytes ifTrue) _ := hthen
    have helse : StandsFor decrypt clear (wordBytes ifFalse) _ := helse
    obtain ⟨s, flag, rfl, hs, hflag⟩ := hflag.of_typeOf hcontrol
    obtain ⟨s₁, a, rfl, hs₁, ha⟩ := hthen.of_typeOf htrue
    obtain ⟨s₂, b, rfl, hs₂, hb⟩ := helse.of_typeOf hfalse
    obtain rfl : s = .fheBool := FheTypes.num_injective hs
    obtain rfl : s₁ = s₂ := FheTypes.num_injective (hs₁.trans hs₂.symm)
    refine ⟨s₁, lib.select s₁ flag a b, if_pos rfl, hs₁, ?_⟩
    rw [hlib.select, hflag, ha, hb, htext]
  | cast ct toType =>
    cases htype
    obtain ⟨hto, t, -, hct, -⟩ := htyped
    have htext := hvalue _ rfl
    cases hcts with
    | cons hoperand hrest =>
    cases hrest with
    | cons hscalar hnil =>
    cases hnil
    have hoperand : StandsFor decrypt clear (wordBytes ct) _ := hoperand
    have hscalar : _ = SupportedFheCiphertexts.scalar (ty type) := hscalar
    obtain ⟨s, a, rfl, -, ha⟩ := hoperand.of_typeOf hct
    subst hscalar
    rw [htext, ← ha]
    exact performs_cast hlib hto s a
  | trivialEncrypt pt toType =>
    cases htype
    have hto : type ∈ boolAndUint8To160And256 := htyped
    have htext := hvalue _ rfl
    cases hcts with
    | cons hpt hrest =>
    cases hrest with
    | cons htoType hnil =>
    cases hnil
    obtain ⟨out, hout⟩ :=
      (show Covers boolToBytes256 boolAndUint8To160And256 by decide).exists_num hto
    obtain ⟨c, hc, hdecrypt⟩ := trivialEncryptBeBytes_decrypts hlib.toComputes out (asBytes pt)
    have hfits : pt.toNat < 2 ^ type.numBits := hfits
    rw [← bits_eq_numBits hto hout] at hfits
    refine ⟨out, c, ?_, hout, ?_⟩
    · rw [← hc, hout, ← asI16_ty]
      cases hpt
      cases htoType
      rfl
    · rw [hdecrypt, trivialOperand_of_lt hfits, htext]
  | fheRand randType =>
    cases htype
    obtain ⟨t', c, hnum, hc, hdecrypt⟩ := drawnNumber_eq lib decrypt htyped seed none
    cases hcts with
    | cons hseed hrest =>
    cases hrest with
    | cons hrandType hnil =>
    cases hnil
    cases hseed
    cases hrandType
    refine ⟨t', c, ?_, hnum, ?_⟩
    · rw [← hc, ← asI16_ty]
      rfl
    · rw [← hdecrypt, hdrawn _ rfl]
      rfl
  | fheRandBounded upperBound randType =>
    cases htype
    obtain ⟨t', c, hnum, hc, hdecrypt⟩ := drawnNumber_eq lib decrypt
      (List.mem_cons_of_mem _ htyped.1) seed (some upperBound)
    cases hcts with
    | cons hseed hrest =>
    cases hrest with
    | cons hbound hrest =>
    cases hrest with
    | cons hrandType hnil =>
    cases hnil
    cases hseed
    cases hbound
    cases hrandType
    refine ⟨t', c, ?_, hnum, ?_⟩
    · rw [← hc, ← asI16_ty]
      rfl
    · rw [← hdecrypt, hdrawn _ rfl]
      rfl
  | verifyInput inputHandle userAddress inputProof inputType => cases hcall

end Performs

end Fhevm.Listener
