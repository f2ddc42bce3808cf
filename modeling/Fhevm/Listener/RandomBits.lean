import Fhevm.Listener.Divisors

/-!
# Random numbers below a bound

The executor accepts powers of two as bounds, up to the number of values of the type. The
evaluator counts the zero bits at the end of the bound, byte by byte, and draws as many bits.

## Main definitions

* `randomBits_eq_log2` — the bits drawn for an accepted bound.
-/

namespace Fhevm.Listener

open Foundation Contract Host Worker Scheduler

variable {R : Type}

/-! ## Counting bits -/

theorem leadingZeros_two_pow {k : ℕ} (hk : k < 8) :
    (UInt8.ofNat (2 ^ k)) ≠ 0 ∧ 7 - leadingZeros (UInt8.ofNat (2 ^ k)) = k := by
  have hlt : 2 ^ k < 2 ^ 8 := Nat.pow_lt_pow_right (by norm_num) hk
  have hbyte : (UInt8.ofNat (2 ^ k)).toNat = 2 ^ k := by
    rw [UInt8.toNat_ofNat', Nat.mod_eq_of_lt hlt]
  constructor
  · intro hzero
    rw [hzero] at hbyte
    have := Nat.two_pow_pos k
    simp only [UInt8.toNat_zero] at hbyte
    omega
  · rw [leadingZeros, hbyte, Nat.size_pow]
    omega

/-- The loop on the bytes of a power of two. The induction is on the number of bytes: the last one
is the power, or zero and then a smaller power is before it. -/
theorem randomBitsLoop_encode (n : ℕ) {k : ℕ} (hk : k < 8 * n) (res : ℕ) :
    randomBitsLoop (BigEndian.encode n (2 ^ k)).reverse res = res + k := by
  induction n generalizing k res with
  | zero => omega
  | succ n ih =>
    rw [BigEndian.encode, List.reverse_append, List.reverse_singleton, List.singleton_append,
      randomBitsLoop]
    by_cases hbyte : k < 8
    · obtain ⟨hne, hzeros⟩ := leadingZeros_two_pow hbyte
      have hmod : 2 ^ k % 256 = 2 ^ k :=
        Nat.mod_eq_of_lt (Nat.pow_lt_pow_right (by norm_num) hbyte : 2 ^ k < 2 ^ 8)
      rw [hmod, if_neg hne, hzeros]
    · obtain ⟨j, rfl⟩ := Nat.exists_eq_add_of_le (Nat.le_of_not_lt hbyte)
      have hpow : 2 ^ (8 + j) = 256 * 2 ^ j := by
        rw [pow_add]
        norm_num
      have hzero : UInt8.ofNat (256 * 2 ^ j % 256) = 0 := by
        rw [Nat.mul_mod_right]
        rfl
      rw [hpow, if_pos hzero, Nat.mul_div_cancel_left _ (by norm_num : 0 < 256),
        ih (by omega)]
      omega

theorem beNumberRandomBits_asBytes {x : BitVec 256} {k : ℕ} (hx : x.toNat = 2 ^ k) :
    beNumberRandomBits (asBytes x) = k := by
  have hlt : 2 ^ k < 2 ^ 256 := hx ▸ x.isLt
  have hk : k < 8 * 32 := (Nat.pow_lt_pow_iff_right (by norm_num)).mp hlt
  rw [beNumberRandomBits, asBytes, wordBytes, hx, randomBitsLoop_encode 32 hk, Nat.zero_add]

/-! ## Accepted bounds -/

theorem exists_pow_of_isPowerOfTwo {x : BitVec 256} (h : FHEVMExecutor.isPowerOfTwo x = true) :
    ∃ k, x.toNat = 2 ^ k := by
  rw [FHEVMExecutor.isPowerOfTwo, Bool.and_eq_true, decide_eq_true_eq, beq_iff_eq] at h
  obtain ⟨hpos, hand⟩ := h
  have hsub : (x - 1).toNat = x.toNat - 1 := by
    have hone : (1 : BitVec 256) ≤ x := by
      rw [BitVec.le_def]
      exact hpos
    rw [BitVec.toNat_sub_of_le hone]
    rfl
  have hnat : x.toNat &&& (x.toNat - 1) = 0 := by
    rw [← hsub, ← BitVec.toNat_and, hand]
    rfl
  exact Nat.ne_zero_and_sub_one_eq_zero_iff_isPowerOfTwo.mp ⟨by omega, hnat⟩

/-- An accepted bound is at most the number of values of its type. -/
theorem le_bits_of_checkBelowMaxBound {x : BitVec 256} {k : ℕ} (hx : x.toNat = 2 ^ k)
    {type : FheType} (htype : type ∈ FHEVMExecutor.uint8To256)
    (h : FHEVMExecutor.checkBelowMaxBound x type = .ok ()) {t : FheTypes}
    (hnum : t.num = type.toNat) : k ≤ t.bits := by
  have hword : 2 ^ k < 2 ^ 256 := hx ▸ x.isLt
  have hpow : ∀ {n}, 2 ^ k ≤ 2 ^ n → k ≤ n :=
    fun hle => (Nat.pow_le_pow_iff_right (by norm_num)).mp hle
  have hof : ∀ {u : FheTypes}, u.num = type.toNat → t = u :=
    fun hu => FheTypes.num_injective (hnum.trans hu.symm)
  simp only [FHEVMExecutor.uint8To256, List.mem_cons, List.not_mem_nil, or_false] at htype
  rcases htype with rfl | rfl | rfl | rfl | rfl | rfl
  all_goals
    simp only [FHEVMExecutor.checkBelowMaxBound, FHEVMExecutor.revertUpperBoundAboveMaxTypeValue,
      require_eq_ok, hx, not_lt] at h
  · exact (hof (u := .fheUint8) rfl) ▸ hpow h
  · exact (hof (u := .fheUint16) rfl) ▸ hpow h
  · exact (hof (u := .fheUint32) rfl) ▸ hpow h
  · exact (hof (u := .fheUint64) rfl) ▸ hpow h
  · exact (hof (u := .fheUint128) rfl) ▸ hpow h
  · exact (hof (u := .fheUint256) rfl) ▸ hpow hword.le

/-- For an accepted bound the evaluator draws as many random bits as the logarithm of the bound,
so that numbers of that many bits are just the numbers below the bound. -/
theorem randomBits_eq_log2 (D : Deployment) (V : SignatureScheme) (ctx : Context) (s s' : HostState)
    (upperBound : BitVec 256) (randType : FheType) (result : Bytes32) (event : TfheEvent)
    (h : executorCall D V ctx s (.fheRandBounded upperBound randType) =
      .ok ((result, event), s')) (tenantId : ℤ) (now : ℕ) (transactionHash : Handle)
    (allowed : Bool) :
    ∃ (t : FheTypes) (c : Worker.Computation) (seed : List UInt8), t.num = randType.toNat ∧
      insertTfheEvent tenantId now ⟨event, transactionHash, allowed⟩ = some c ∧
      c.toOp = .ok (⟨wordBytes result, .fheRandBounded, [.value (.scalar seed),
        .value (.scalar (asBytes upperBound)), .value (.scalar (ty randType))], allowed⟩ : DFGOp R) ∧
      randomBits t.bits (some (asBytes upperBound)) = Nat.log2 upperBound.toNat ∧
      2 ^ Nat.log2 upperBound.toNat = upperBound.toNat ∧
      ∀ lib : TfheLibrary R, performFheOperation lib SupportedFheOperations.fheRandBounded.toInt
        [.scalar seed, .scalar (asBytes upperBound), .scalar (ty randType)] =
          .ok (.enc t (lib.generateObliviousPseudoRandomBounded t (toBeU128Bit seed)
            (Nat.log2 upperBound.toNat))) := by
  obtain ⟨⟨htype, hpower, hbound⟩, rfl, -⟩ := executorCall_ok rfl h
  obtain ⟨k, hk⟩ := exists_pow_of_isPowerOfTwo hpower
  obtain ⟨t, hnum⟩ :=
    (show Covers uint4To256 FHEVMExecutor.uint8To256 by decide).exists_num htype
  have hbits : randomBits t.bits (some (asBytes upperBound)) = k := by
    rw [randomBits, Option.map_some, Option.getD_some, beNumberRandomBits_asBytes hk]
    exact Nat.min_eq_left (le_bits_of_checkBelowMaxBound hk htype hbound hnum)
  have hlog : Nat.log2 upperBound.toNat = k := by rw [hk, Nat.log2_two_pow]
  have hdraw : ∀ (lib : TfheLibrary R) (seed : ℕ),
      generateRandomNumber lib t.num seed (some (asBytes upperBound)) =
        .ok (.enc t (lib.generateObliviousPseudoRandomBounded t seed k)) := by
    intro lib seed
    rw [generateRandomNumber, FheTypes.ofNum?_num]
    cases t with
    | fheBool => exact absurd ((show Covers uint4To256 FHEVMExecutor.uint8To256 by decide).mem
        htype hnum) (by decide)
    | _ => simp only [hbits]
  refine ⟨t, _, FHEVMExecutor.seedBytes (FHEVMExecutor.seedOf D ctx s.counterRand), hnum, rfl, ?_,
    hbits.trans hlog.symm, by rw [hlog, hk], ?_⟩
  · rw [Computation.toOp, show SupportedFheOperations.tryFrom _ = some .fheRandBounded from rfl]
    simp only [bind_eq_ok, pure_eq_ok]
    exact ⟨(), check_randBounded _ (asBytes_ne_nil upperBound) rfl, rfl⟩
  · intro lib
    rw [hlog, ← hdraw, hnum, ← asI16_ty]
    rfl

/-- A random byte below 16 has four random bits. -/
theorem four_random_bits : randomBits 8 (some (asBytes 16)) = 4 := by
  have hok : (executorCall sampleConfig.deployment sampleConfig.signatures (sampleContext 10)
      sampleConfig.init (.fheRandBounded 16 .uint8)).isOk = true := by
    decide +kernel
  obtain ⟨⟨⟨result, event⟩, s'⟩, hcall⟩ := exists_of_isOk hok
  obtain ⟨t, -, -, hnum, -, -, hbits, -⟩ := randomBits_eq_log2 sampleConfig.deployment
    sampleConfig.signatures (sampleContext 10) sampleConfig.init s' 16 .uint8 result event hcall
      (R := ℕ) 1 0 [1] false
  obtain rfl : t = .fheUint8 := FheTypes.num_injective hnum
  exact hbits.trans (by decide)

end Fhevm.Listener
