import Fhevm.Listener.Evaluation

/-!
# Divisors

The executor refuses a clear divisor that is zero as a word, and the check of the
operands of a division one whose bytes are all zero. The evaluator divides by the last
bits of the divisor, as many as the dividend has.

## Main definitions

* `divisor_ne_zero_iff` — when the divisor that the FHE library is given is not zero.
-/

namespace Fhevm.Listener

open Foundation Contract Host Worker Scheduler

variable {R : Type}

/-- A word that is not zero has a byte that is not. -/
theorem all_zero_wordBytes {x : Bytes32} (hx : x ≠ 0) : (wordBytes x).all (· == 0) = false := by
  by_contra hall
  rw [Bool.not_eq_false, List.all_eq_true] at hall
  have hzero : wordBytes x = List.replicate 32 0 :=
    List.eq_replicate_iff.mpr ⟨BigEndian.length_encode 32 _, fun b hb => by simpa using hall b hb⟩
  apply hx
  apply BitVec.eq_of_toNat_eq
  rw [← decode_wordBytes, hzero, BigEndian.decode_replicate_zero]
  rfl

/-- The divisor next to a ciphertext of an unsigned type. -/
theorem scalarOperand_eq_zero_iff {t : FheTypes} (ht : t ∈ uint4To256) (x : Bytes32) :
    scalarOperand t (wordBytes x) = 0 ↔ 2 ^ t.bits ∣ x.toNat := by
  have hbool : t ≠ .fheBool := by
    rintro rfl
    exact absurd ht (by decide)
  rw [scalarOperand_eq hbool, decode_wordBytes, Nat.dvd_iff_mod_eq_zero]

/-- The two divisions are evaluated alike. -/
theorem performFheOperation_division (lib : TfheLibrary R) {op : BinaryOperator}
    (hdiv : op.IsDivision) (inputOperands : List (SupportedFheCiphertexts R)) :
    performFheOperation lib (binaryToOp op).toInt inputOperands =
      performDivision lib (binaryToOp op) inputOperands := by
  obtain rfl | rfl := hdiv <;> rfl

/-- The only failure of a division by a scalar is the panic on the divisor zero. -/
theorem performDivision_eq_panic (lib : TfheLibrary R) (op : SupportedFheOperations)
    {t : FheTypes} (ht : t ∈ uint4To256) (a : R) (b : List UInt8) :
    performDivision lib op [.enc t a, .scalar b] = .error .panic ↔ scalarOperand t b = 0 := by
  rw [performDivision]
  split_ifs with hzero
  · exact iff_of_true rfl hzero.2
  · rw [performBinary, if_pos ht]
    exact iff_of_false (by simp) (fun h => hzero ⟨ht, h⟩)

/-- The clear divisor of an accepted division passes the check of the operands, and after it is
cut to the width of the dividend it is zero, so that the FHE library panics, just in case that
power of two divides it. -/
theorem divisor_ne_zero_iff (D : Deployment) (V : SignatureScheme) (ctx : Context) (s s' : HostState)
    (op : BinaryOperator) (lhs rhs : Bytes32) (scalarByte : UInt8) (result : Bytes32)
    (event : TfheEvent) (hdiv : op.IsDivision)
    (h : executorCall D V ctx s (.binary op lhs rhs scalarByte) = .ok ((result, event), s'))
    (tenantId : ℤ) (now : ℕ) (transactionHash : Handle) (allowed : Bool) :
    ∃ (t : FheTypes) (c : Worker.Computation), getCtType (wordBytes lhs) = .ok (t.num : ℤ) ∧
      insertTfheEvent tenantId now ⟨event, transactionHash, allowed⟩ = some c ∧
      c.toOp = .ok (⟨wordBytes result, binaryToOp op,
        [.dependence (wordBytes lhs), .value (.scalar (wordBytes rhs))], allowed⟩ : DFGOp R) ∧
      (scalarOperand t (wordBytes rhs) ≠ 0 ↔ ¬ 2 ^ t.bits ∣ rhs.toNat) ∧
      ∀ (lib : TfheLibrary R) (a : R), performFheOperation lib (binaryToOp op).toInt
        [.enc t a, .scalar (wordBytes rhs)] = .error .panic ↔ 2 ^ t.bits ∣ rhs.toNat := by
  obtain ⟨⟨t, ht, hlhs, -, hdivisor⟩, rfl, -⟩ := executorCall_ok rfl h
  obtain ⟨rfl, hrhs⟩ := hdivisor hdiv
  have hcovers : Covers uint4To256 op.supportedTypes := by
    obtain rfl | rfl := hdiv <;> decide
  obtain ⟨t', hnum⟩ := hcovers.exists_num ht
  have ht' : t' ∈ uint4To256 := hcovers.mem ht hnum
  have hcheck : checkFheOperandTypes (binaryToOp op).toInt [wordBytes lhs, wordBytes rhs]
      (isScalarOpVec (binaryToOp op) true 2) = .ok () :=
    check_binary (opType_binaryToOp op) _ _ true (fun _ _ => all_zero_wordBytes hrhs)
  refine ⟨t', _, by rw [getCtType_of_typeOf hlhs, hnum], rfl, ?_,
    (scalarOperand_eq_zero_iff ht' rhs).not, ?_⟩
  · have hop : SupportedFheOperations.tryFrom
        (eventToOpInt (.binary op ctx.sender lhs rhs 1 result)) =
        some (binaryToOp op) := SupportedFheOperations.tryFrom_toInt _
    simp only [Computation.toOp, insertComputation, insertComputationBytes, ExecutorCall.event, hop]
    simp only [bind_eq_ok, pure_eq_ok]
    refine ⟨(), hcheck, ?_⟩
    simp [Computation.inputs, isOperandScalar]
  · intro lib a
    rw [performFheOperation_division lib hdiv, performDivision_eq_panic lib _ ht',
      scalarOperand_eq_zero_iff ht']

/-- The account 10 encrypts the byte 5 and divides it by 256. -/
theorem divided_by_256 : ∃ result event s', executorCall sampleConfig.deployment
    sampleConfig.signatures (sampleContext 10)
      (hostAfter sampleConfig [.executor (sampleContext 10) (.trivialEncrypt 5 .uint8)])
        (.binary .fheDiv sharedHandle 256 1) = .ok ((result, event), s') := by
  have hok : (executorCall sampleConfig.deployment sampleConfig.signatures (sampleContext 10)
      (hostAfter sampleConfig [.executor (sampleContext 10) (.trivialEncrypt 5 .uint8)])
        (.binary .fheDiv sharedHandle 256 1)).isOk = true := by
    decide +kernel
  obtain ⟨⟨⟨result, event⟩, s'⟩, hcall⟩ := exists_of_isOk hok
  exact ⟨result, event, s', hcall⟩

theorem divided_by_256_panics : performFheOperation clearLibrary SupportedFheOperations.fheDiv.toInt
    [.enc .fheUint8 5, .scalar (wordBytes 256)] = .error .panic := by
  obtain ⟨result, event, s', hok⟩ := divided_by_256
  obtain ⟨t, -, htype, -, -, -, hpanic⟩ := divisor_ne_zero_iff sampleConfig.deployment
    sampleConfig.signatures (sampleContext 10) _ s' .fheDiv sharedHandle 256 1 result event
      (.inl rfl) hok (R := ℕ) 1 0 [1] false
  have hsame : t.num = FheTypes.fheUint8.num := by
    have hbyte : getCtType (wordBytes sharedHandle) = .ok (2 : ℤ) := by decide +kernel
    rw [hbyte, Except.ok.injEq] at htype
    exact_mod_cast htype.symm
  obtain rfl : t = .fheUint8 := FheTypes.num_injective hsame
  exact (hpanic clearLibrary 5).mpr (by decide)

/-- The divisor 256 is not zero, but its last byte is. -/
theorem divisor_256_vanishes : ¬ ∀ (D : Deployment) (V : SignatureScheme) (ctx : Context)
    (s s' : HostState) (op : BinaryOperator) (lhs rhs : Bytes32) (scalarByte : UInt8)
    (result : Bytes32) (event : TfheEvent) (t : FheTypes), op.IsDivision →
    executorCall D V ctx s (.binary op lhs rhs scalarByte) = .ok ((result, event), s') →
    checkFheOperandTypes (binaryToOp op).toInt [wordBytes lhs, wordBytes rhs]
      (isScalarOpVec (binaryToOp op) (scalarByte != 0) 2) = .ok () →
    getCtType (wordBytes lhs) = .ok (t.num : ℤ) → scalarOperand t (wordBytes rhs) ≠ 0 := by
  intro hall
  obtain ⟨result, event, s', hok⟩ := divided_by_256
  have hchecked : checkFheOperandTypes SupportedFheOperations.fheDiv.toInt
      [wordBytes sharedHandle, wordBytes 256] (isScalarOpVec .fheDiv true 2) = .ok () :=
    check_binary rfl _ _ true (fun _ _ => all_zero_wordBytes (by decide))
  exact hall _ _ _ _ _ _ _ _ _ _ _ .fheUint8 (.inl rfl) hok hchecked (by decide +kernel)
    (by decide +kernel)

end Fhevm.Listener
