import Fhevm.Listener.RandomBits

/-!
# What the check of the operands guards

The evaluator panics on a type that it does not know, and a random number below the bound zero is
drawn from the whole type. The check of the operands looks at the type of a random number only if
it has no bound, and it refuses only bounds without bytes.

## Main definitions

* `operandsOfFlags` — the operands of the evaluator.
* `Guarded` — the evaluator does not panic, and a random number is below its bound.
* `KnownOperands` — the operands for which it is so.
-/

namespace Fhevm.Listener

open Foundation Contract

variable {R : Type}

/-! ## What is accepted -/

/-- A byte string that is not a scalar is the handle of a ciphertext. -/
def operandsOfFlags (ciphertext : List UInt8 → SupportedFheCiphertexts R)
    (inputHandles : List (List UInt8)) (isInputHandleScalar : List Bool) :
    List (SupportedFheCiphertexts R) :=
  List.zipWith (fun input isScalar => if isScalar then .scalar input else ciphertext input)
    inputHandles isInputHandleScalar

section Accepted

variable {inputHandles : List (List UInt8)} {isInputHandleScalar : List Bool}

theorem flags_of_count {n : ℕ} (hlength : isInputHandleScalar.length = n)
    (hcount : ¬ isInputHandleScalar.count true < n) :
    isInputHandleScalar = List.replicate n true := by
  have hle := List.count_le_length (a := true) (l := isInputHandleScalar)
  rw [← hlength]
  apply List.eq_replicate_length.mpr
  intro b hb
  have heq : isInputHandleScalar.count true = isInputHandleScalar.length := by omega
  exact (List.count_eq_length.mp heq b hb).symm

theorem checkOperandCount_ok {fheOperation : ℤ} {fheOp : SupportedFheOperations}
    {expectedOperands gotOperands : ℕ} {u : Unit} :
    checkOperandCount fheOperation fheOp expectedOperands gotOperands = .ok u ↔
      gotOperands = expectedOperands :=
  require_eq_ok

theorem checkRandScalars_ok {fheOperation : ℤ} {fheOp : SupportedFheOperations}
    {expectedOperands : ℕ} {u : Unit} :
    checkRandScalars fheOperation fheOp expectedOperands isInputHandleScalar = .ok u ↔
      ¬ isInputHandleScalar.count true < expectedOperands :=
  require_eq_ok

theorem checkRandType_ok {fheOperation : ℤ} {fheOp : SupportedFheOperations}
    {randType : List UInt8} {u : Unit} :
    checkRandType fheOperation fheOp randType = .ok u ↔ randType.length = 1 :=
  require_eq_ok

theorem require_bind_ok {p : Prop} [Decidable p] {e : OperationFailure}
    {rest : Except OperationFailure Unit} :
    (require p e >>= fun _ => rest) = .ok () ↔ p ∧ rest = .ok () := by
  simp only [bind_eq_ok, require_eq_ok, exists_const]

theorem accepted_fheRand
    (h : checkFheOperandTypes SupportedFheOperations.fheRand.toInt inputHandles
      isInputHandleScalar = .ok ()) :
    ∃ randCounter randType, inputHandles = [randCounter, [randType]] ∧
      isInputHandleScalar = [true, true] ∧ randType.toNat ≤ 11 := by
  -- no scalar is looked at before the check of the operation
  obtain ⟨hflags, h⟩ : inputHandles.length = isInputHandleScalar.length ∧
      checkRand SupportedFheOperations.fheRand.toInt inputHandles isInputHandleScalar = .ok () :=
    (require_bind_ok).mp h
  simp only [checkRand, checkOperandCount_ok, checkRandScalars_ok, checkRandType_ok,
    validateFheType, bind_eq_ok, require_eq_ok, exists_const] at h
  obtain ⟨hlength, hcount, htype, -, hknown⟩ := h
  obtain ⟨randCounter, type, rfl⟩ := List.length_eq_two.mp hlength
  obtain ⟨randType, rfl⟩ := List.length_eq_one_iff.mp htype
  exact ⟨randCounter, randType, rfl, flags_of_count hflags.symm hcount, by exact_mod_cast hknown⟩

theorem accepted_fheRandBounded
    (h : checkFheOperandTypes SupportedFheOperations.fheRandBounded.toInt inputHandles
      isInputHandleScalar = .ok ()) :
    ∃ randCounter upperBound randType, inputHandles = [randCounter, upperBound, [randType]] ∧
      isInputHandleScalar = [true, true, true] := by
  obtain ⟨hflags, h⟩ : inputHandles.length = isInputHandleScalar.length ∧
      checkRandBounded SupportedFheOperations.fheRandBounded.toInt inputHandles
        isInputHandleScalar = .ok () :=
    (require_bind_ok).mp h
  simp only [checkRandBounded, checkOperandCount_ok, checkRandScalars_ok, checkRandType_ok,
    bind_eq_ok, require_eq_ok, exists_const] at h
  obtain ⟨hlength, hcount, -, htype⟩ := h
  obtain ⟨randCounter, upperBound, type, rfl⟩ := List.length_eq_three.mp hlength
  obtain ⟨randType, rfl⟩ := List.length_eq_one_iff.mp htype
  exact ⟨randCounter, upperBound, randType, rfl, flags_of_count hflags.symm hcount⟩

theorem accepted_fheTrivialEncrypt
    (h : checkFheOperandTypes SupportedFheOperations.fheTrivialEncrypt.toInt inputHandles
      isInputHandleScalar = .ok ()) :
    ∃ value toType, inputHandles = [value, [toType]] ∧ isInputHandleScalar = [true, true] := by
  obtain ⟨hflags, h⟩ : inputHandles.length = isInputHandleScalar.length ∧
      checkTrivialEncrypt SupportedFheOperations.fheTrivialEncrypt.toInt inputHandles
        isInputHandleScalar = .ok () :=
    (require_bind_ok).mp h
  simp only [checkTrivialEncrypt, checkOperandCount_ok, bind_eq_ok, require_eq_ok,
    exists_const] at h
  obtain ⟨hlength, ⟨hleft, hright⟩, htype⟩ := h
  obtain ⟨value, type, rfl⟩ := List.length_eq_two.mp hlength
  obtain ⟨toType, rfl⟩ := List.length_eq_one_iff.mp htype
  obtain ⟨left, right, rfl⟩ := List.length_eq_two.mp hflags.symm
  exact ⟨value, toType, rfl, congrArg₂ (fun x y => [x, y]) hleft hright⟩

end Accepted

/-! ## Bounds -/

theorem two_pow_leadingZeros_le {b : UInt8} (h : 0 < b.toNat) :
    2 ^ (7 - leadingZeros b) ≤ b.toNat := by
  have hle : Nat.size b.toNat ≤ 8 := Nat.size_le.mpr b.toNat_lt
  have hpos : 0 < Nat.size b.toNat := Nat.size_pos.mpr h
  rw [leadingZeros, ← Nat.lt_size]
  omega

/-- The last byte that is not zero has the lowest bits of the bound, and the bits that are drawn are
those below its highest one. -/
theorem two_pow_randomBitsLoop_le (bs : List UInt8) (res : ℕ) (h : BigEndian.decode bs ≠ 0) :
    2 ^ randomBitsLoop bs.reverse res ≤ BigEndian.decode bs * 2 ^ res := by
  induction bs using List.reverseRecOn generalizing res with
  | nil => exact absurd rfl h
  | append_singleton bs b ih =>
    rw [List.reverse_append, List.reverse_singleton, List.singleton_append, randomBitsLoop]
    rw [BigEndian.decode_concat] at h ⊢
    split_ifs with hzero
    · subst hzero
      simp only [UInt8.toNat_zero, Nat.add_zero] at h ⊢
      have hle := ih (res + 8) (by omega)
      have hpow : 2 ^ (res + 8) = 256 * 2 ^ res := by
        rw [pow_add, mul_comm]
        norm_num
      rwa [hpow, ← mul_assoc] at hle
    · have hpos : 0 < b.toNat := by
        rw [Nat.pos_iff_ne_zero, ne_eq, ← UInt8.toNat_zero, UInt8.toNat_inj]
        exact hzero
      have hbyte := two_pow_leadingZeros_le hpos
      calc 2 ^ (res + (7 - leadingZeros b)) = 2 ^ (7 - leadingZeros b) * 2 ^ res := by ring
        _ ≤ (BigEndian.decode bs * 256 + b.toNat) * 2 ^ res :=
          Nat.mul_le_mul_right _ (hbyte.trans (Nat.le_add_left _ _))

theorem two_pow_beNumberRandomBits_le {inp : List UInt8} (h : BigEndian.decode inp ≠ 0) :
    2 ^ beNumberRandomBits inp ≤ BigEndian.decode inp := by
  have hle := two_pow_randomBitsLoop_le inp 0 h
  rwa [pow_zero, mul_one] at hle

/-! ## Types -/

theorem asI16_singleton (b : UInt8) : asI16 (toBeU16Bit [b]) = b.toNat := by
  have hlt := b.toNat_lt
  have hdecode : toBeU16Bit [b] = b.toNat := by
    rw [toBeU16Bit, toConstantSizeArray, BigEndian.decode_lastBytes]
    simp only [BigEndian.decode, List.foldl_cons, List.foldl_nil]
    omega
  rw [asI16, hdecode, if_pos (by omega)]

theorem num_of_ofNum? {n : ℤ} {t : FheTypes} (h : FheTypes.ofNum? n = some t) : n = t.num := by
  unfold FheTypes.ofNum? at h
  split at h <;> first | cases h; rfl | cases h

theorem exists_ofNum?_iff (n : ℕ) : (∃ t, FheTypes.ofNum? n = some t) ↔ n ≤ 11 := by
  constructor
  · rintro ⟨t, ht⟩
    have heq : n = t.num := by exact_mod_cast num_of_ofNum? ht
    rw [heq]
    cases t <;> exact Nat.le_of_ble_eq_true rfl
  · intro h
    interval_cases n <;> exact ⟨_, rfl⟩

/-- The number of a type that the evaluator does not know. -/
theorem ofNum?_eq_none {n : ℕ} (h : ¬ n ≤ 11) : FheTypes.ofNum? n = none := by
  rw [← exists_ofNum?_iff, not_exists] at h
  exact Option.eq_none_iff_forall_not_mem.mpr h

/-! ## Random numbers -/

/-- The FHE library draws numbers with the given number of bits. -/
structure Draws (lib : TfheLibrary R) (decrypt : FheTypes → R → ℕ) : Prop where
  bounded (t : FheTypes) (seed : ℕ) {randomBits : ℕ} (h : randomBits ≤ t.bits) :
    decrypt t (lib.generateObliviousPseudoRandomBounded t seed randomBits) < 2 ^ randomBits
  bool (seed : ℕ) : decrypt .fheBool (lib.generateObliviousPseudoRandom seed) < 2

theorem generateRandomNumber_eq_panic_iff (lib : TfheLibrary R) (n seed : ℕ)
    (upperBound : Option (List UInt8)) :
    generateRandomNumber lib n seed upperBound = .error .panic ↔ ¬ n ≤ 11 := by
  by_cases h : n ≤ 11
  · obtain ⟨t, ht⟩ := (exists_ofNum?_iff n).mpr h
    obtain rfl : n = t.num := by exact_mod_cast num_of_ofNum? ht
    obtain ⟨r, hr⟩ := generateRandomNumber_ok lib t seed upperBound
    exact iff_of_false (by simp [hr]) (not_not_intro h)
  · exact iff_of_true (by simp [generateRandomNumber, ofNum?_eq_none h]) h

theorem trivialEncryptBeBytes_eq_panic_iff (lib : TfheLibrary R) (n : ℕ) (bytes : List UInt8) :
    trivialEncryptBeBytes lib n bytes = .error .panic ↔ ¬ n ≤ 11 := by
  by_cases h : n ≤ 11
  · obtain ⟨t, ht⟩ := (exists_ofNum?_iff n).mpr h
    obtain rfl : n = t.num := by exact_mod_cast num_of_ofNum? ht
    obtain ⟨r, hr⟩ := trivialEncryptBeBytes_ok lib t bytes
    exact iff_of_false (by simp [hr]) (not_not_intro h)
  · exact iff_of_true (by simp [trivialEncryptBeBytes, ofNum?_eq_none h]) h

/-- A random boolean can be one whatever the bound is. -/
def leastBound (n : ℕ) : ℕ := if n = 0 then 2 else 1

theorem one_le_leastBound (n : ℕ) : 1 ≤ leastBound n := by
  unfold leastBound
  split_ifs <;> norm_num

/-- Where the bound is large enough, the number is below it. -/
theorem generateRandomNumber_lt {lib : TfheLibrary R} {decrypt : FheTypes → R → ℕ}
    (hlib : Draws lib decrypt) {n seed : ℕ} {upperBound : List UInt8}
    (hbound : leastBound n ≤ BigEndian.decode upperBound) {t : FheTypes} {r : R}
    (h : generateRandomNumber lib n seed (some upperBound) = .ok (.enc t r)) :
    decrypt t r < BigEndian.decode upperBound := by
  by_cases hn : n ≤ 11
  · obtain ⟨s, hs⟩ := (exists_ofNum?_iff n).mpr hn
    obtain rfl : n = s.num := by exact_mod_cast num_of_ofNum? hs
    have hpos : BigEndian.decode upperBound ≠ 0 := by
      have hleast := one_le_leastBound s.num
      omega
    have hdraw : decrypt s (lib.generateObliviousPseudoRandomBounded s seed
        (randomBits s.bits (some upperBound))) < BigEndian.decode upperBound := by
      have hbits : randomBits s.bits (some upperBound) ≤ beNumberRandomBits upperBound :=
        Nat.min_le_left _ _
      calc decrypt s (lib.generateObliviousPseudoRandomBounded s seed
            (randomBits s.bits (some upperBound)))
          < 2 ^ randomBits s.bits (some upperBound) := hlib.bounded s seed (Nat.min_le_right _ _)
        _ ≤ 2 ^ beNumberRandomBits upperBound := Nat.pow_le_pow_right (by norm_num) hbits
        _ ≤ BigEndian.decode upperBound := two_pow_beNumberRandomBits_le hpos
    rw [generateRandomNumber, hs] at h
    cases s with
    | fheBool =>
      obtain ⟨rfl, rfl⟩ := SupportedFheCiphertexts.enc.inj (Except.ok.inj h)
      exact (hlib.bool seed).trans_le hbound
    | _ =>
      obtain ⟨rfl, rfl⟩ := SupportedFheCiphertexts.enc.inj (Except.ok.inj h)
      exact hdraw
  · rw [(generateRandomNumber_eq_panic_iff lib n seed _).mpr hn] at h
    cases h

/-! ## What the check guards -/

/-- The evaluator does not panic, and a random number is below its bound, which is not zero. -/
def Guarded (op : SupportedFheOperations) (inputHandles : List (List UInt8))
    (isInputHandleScalar : List Bool) : Prop :=
  ∀ (R : Type) (lib : TfheLibrary R) (decrypt : FheTypes → R → ℕ)
    (ciphertext : List UInt8 → SupportedFheCiphertexts R), Draws lib decrypt →
    let result := performFheOperation lib op.toInt
      (operandsOfFlags ciphertext inputHandles isInputHandleScalar)
    result ≠ .error .panic ∧
      (op = .fheRandBounded → 0 < BigEndian.decode (inputHandles.getD 1 []) ∧
        ∀ t r, result = .ok (.enc t r) → decrypt t r < BigEndian.decode (inputHandles.getD 1 []))

/-- The types are known where no check looks at them, and the bound of a random number is above
zero, for booleans above one. -/
def KnownOperands : SupportedFheOperations → List (List UInt8) → Prop
  | .fheTrivialEncrypt, [_, toType] => (toType.getD 0 0).toNat ≤ 11
  | .fheRandBounded, [_, upperBound, randType] =>
    (randType.getD 0 0).toNat ≤ 11 ∧
      leastBound (randType.getD 0 0).toNat ≤ BigEndian.decode upperBound
  | _, _ => True

/-- The library that draws the largest numbers. -/
def highestLibrary : TfheLibrary ℕ where
  __ := clearLibrary
  generateObliviousPseudoRandomBounded _ _ randomBits := 2 ^ randomBits - 1
  generateObliviousPseudoRandom _ := 1

theorem draws_highestLibrary : Draws highestLibrary fun _ a => a where
  bounded _ _ _ _ := Nat.sub_lt (Nat.two_pow_pos _) one_pos
  bool _ := one_lt_two

section Evaluator

variable (lib : TfheLibrary R)

theorem performFheOperation_fheRand (randCounter : List UInt8) (randType : UInt8) :
    performFheOperation lib SupportedFheOperations.fheRand.toInt
        [.scalar randCounter, .scalar [randType]] =
      generateRandomNumber lib randType.toNat (toBeU128Bit randCounter) none := by
  change performRand lib [.scalar randCounter, .scalar [randType]] = _
  rw [performRand, asI16_singleton]

theorem performFheOperation_fheRandBounded (randCounter upperBound : List UInt8)
    (randType : UInt8) :
    performFheOperation lib SupportedFheOperations.fheRandBounded.toInt
        [.scalar randCounter, .scalar upperBound, .scalar [randType]] =
      generateRandomNumber lib randType.toNat (toBeU128Bit randCounter) (some upperBound) := by
  change performRandBounded lib [.scalar randCounter, .scalar upperBound, .scalar [randType]] = _
  rw [performRandBounded, asI16_singleton]

theorem performFheOperation_fheTrivialEncrypt (value : List UInt8) (toType : UInt8) :
    performFheOperation lib SupportedFheOperations.fheTrivialEncrypt.toInt
        [.scalar value, .scalar [toType]] =
      trivialEncryptBeBytes lib toType.toNat value := by
  change performTrivialEncrypt lib [.scalar value, .scalar [toType]] = _
  rw [performTrivialEncrypt, asI16_singleton]

end Evaluator

/-- A random number below a bound is drawn well just if its type is known and its bound is large
enough. The library that draws the largest numbers shows that the bound is needed. -/
theorem guarded_fheRandBounded_iff (randCounter upperBound : List UInt8) (randType : UInt8) :
    Guarded .fheRandBounded [randCounter, upperBound, [randType]] [true, true, true] ↔
      KnownOperands .fheRandBounded [randCounter, upperBound, [randType]] := by
  change _ ↔ randType.toNat ≤ 11 ∧ leastBound randType.toNat ≤ BigEndian.decode upperBound
  constructor
  · intro h
    obtain ⟨hpanic, hbound⟩ := h ℕ highestLibrary _ (fun _ => .scalar []) draws_highestLibrary
    obtain ⟨hpos, hlt⟩ := hbound rfl
    change performFheOperation highestLibrary SupportedFheOperations.fheRandBounded.toInt
      [.scalar randCounter, .scalar upperBound, .scalar [randType]] ≠ _ at hpanic
    change 0 < BigEndian.decode upperBound at hpos
    rw [performFheOperation_fheRandBounded, ne_eq, generateRandomNumber_eq_panic_iff,
      not_not] at hpanic
    refine ⟨hpanic, ?_⟩
    unfold leastBound
    split_ifs with hbool
    · refine hlt .fheBool 1 ?_
      change performFheOperation highestLibrary SupportedFheOperations.fheRandBounded.toInt
        [.scalar randCounter, .scalar upperBound, .scalar [randType]] = _
      rw [performFheOperation_fheRandBounded, hbool]
      rfl
    · exact hpos
  · rintro ⟨htype, hbound⟩ R lib decrypt ciphertext hlib
    change performFheOperation lib SupportedFheOperations.fheRandBounded.toInt
      [.scalar randCounter, .scalar upperBound, .scalar [randType]] ≠ _ ∧
      (_ → 0 < BigEndian.decode upperBound ∧ ∀ t r, performFheOperation lib
        SupportedFheOperations.fheRandBounded.toInt
          [.scalar randCounter, .scalar upperBound, .scalar [randType]] = _ →
        decrypt t r < BigEndian.decode upperBound)
    rw [performFheOperation_fheRandBounded, ne_eq, generateRandomNumber_eq_panic_iff, not_not]
    refine ⟨htype, fun _ => ⟨(one_le_leastBound _).trans hbound, ?_⟩⟩
    exact fun t r hdrawn => generateRandomNumber_lt hlib hbound hdrawn

/-- What the check accepts is evaluated without a panic, and numbers are drawn below their bounds,
just if the types are known and the bounds are not zero. -/
theorem guarded_iff {op : SupportedFheOperations}
    (hop : op ∈ [.fheRand, .fheRandBounded, .fheTrivialEncrypt]) {inputHandles : List (List UInt8)}
    {isInputHandleScalar : List Bool}
    (h : checkFheOperandTypes op.toInt inputHandles isInputHandleScalar = .ok ()) :
    Guarded op inputHandles isInputHandleScalar ↔ KnownOperands op inputHandles := by
  simp only [List.mem_cons, List.not_mem_nil, or_false] at hop
  obtain rfl | rfl | rfl := hop
  · obtain ⟨randCounter, randType, rfl, rfl, hknown⟩ := accepted_fheRand h
    refine iff_of_true ?_ trivial
    intro R lib decrypt ciphertext _
    refine ⟨?_, fun heq => by cases heq⟩
    change performFheOperation lib SupportedFheOperations.fheRand.toInt
      [.scalar randCounter, .scalar [randType]] ≠ _
    rw [performFheOperation_fheRand, ne_eq, generateRandomNumber_eq_panic_iff, not_not]
    exact hknown
  · obtain ⟨randCounter, upperBound, randType, rfl, rfl⟩ := accepted_fheRandBounded h
    exact guarded_fheRandBounded_iff randCounter upperBound randType
  · obtain ⟨value, toType, rfl, rfl⟩ := accepted_fheTrivialEncrypt h
    have hpanic : ∀ {R : Type} (lib : TfheLibrary R), performFheOperation lib
        SupportedFheOperations.fheTrivialEncrypt.toInt [.scalar value, .scalar [toType]] ≠
          .error .panic ↔ toType.toNat ≤ 11 := by
      intro R lib
      rw [performFheOperation_fheTrivialEncrypt, ne_eq, trivialEncryptBeBytes_eq_panic_iff, not_not]
    constructor
    · intro hguarded
      exact (hpanic highestLibrary).mp
        (hguarded ℕ highestLibrary _ (fun _ => .scalar []) draws_highestLibrary).1
    · intro hknown R lib decrypt ciphertext _
      exact ⟨(hpanic lib).mpr hknown, fun heq => by cases heq⟩

/-- A random byte below 16 is drawn below 16. -/
theorem guarded_below_16 : Guarded .fheRandBounded [[1], [0, 16], [2]] [true, true, true] := by
  apply (@guarded_iff .fheRandBounded (by decide) _ _ (by decide)).mpr
  exact ⟨by decide, by decide⟩

/-- The bound of one zero byte is accepted, and so is a type that does not exist. -/
theorem not_guarded_zero_bound :
    checkFheOperandTypes SupportedFheOperations.fheRandBounded.toInt [[1], [0], [2]]
      [true, true, true] = .ok () ∧ ¬ Guarded .fheRandBounded [[1], [0], [2]] [true, true, true] ∧
    checkFheOperandTypes SupportedFheOperations.fheTrivialEncrypt.toInt [[1], [12]]
      [true, true] = .ok () ∧ ¬ Guarded .fheTrivialEncrypt [[1], [12]] [true, true] := by
  refine ⟨by decide, ?_, by decide, ?_⟩
  · rw [guarded_fheRandBounded_iff]
    exact fun h => absurd h.2 (by decide)
  · intro h
    apply (h ℕ highestLibrary _ (fun _ => .scalar []) draws_highestLibrary).1
    exact (performFheOperation_fheTrivialEncrypt _ _ _).trans
      ((trivialEncryptBeBytes_eq_panic_iff _ _ _).mpr (by decide))

end Fhevm.Listener
