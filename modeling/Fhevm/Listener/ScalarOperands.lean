import Fhevm.Listener.Divisors

/-!
# Scalars and their trivial encryptions

A binary operation takes a ciphertext or a scalar on the right. The scalar is cut to the width of
the left operand, and it is cut in another place where it is encrypted trivially. For booleans the
two places differ: one looks at all bytes, and the other at the last one.

## Main definitions

* `Computes` — what the evaluator relies on the FHE library for.
* `ScalarAgrees` — the operation on a scalar is that on its trivial encryption.
-/

namespace Fhevm.Listener

open Foundation Host

variable {R : Type} {lib : TfheLibrary R} {decrypt : FheTypes → R → ℕ}
  {value : BinaryOperator → FheTypes → ℕ → ℕ → ℕ} {op : BinaryOperator} {t : FheTypes}

/-! ## The evaluator -/

/-- A division by a scalar that is cut to zero panics. -/
theorem performFheOperation_scalar (ht : t ∈ tfheTypes op) (a : R) (b : List UInt8) :
    performFheOperation lib (binaryToOp op).toInt [.enc t a, .scalar b] =
      if op.IsDivision ∧ scalarOperand t b = 0 then .error .panic
      else .ok (.enc (tfheResultType op t)
        (lib.binaryScalar (binaryToOp op) t a (scalarOperand t b))) := by
  by_cases hdiv : op.IsDivision
  · rw [performFheOperation_division lib hdiv]
    have hmem : t ∈ uint4To256 := by obtain rfl | rfl := hdiv <;> exact ht
    have hresult : tfheResultType op t = t := by obtain rfl | rfl := hdiv <;> rfl
    simp only [performDivision, performBinary, hmem, true_and, if_true, hdiv, hresult, id]
  · rw [performFheOperation_binary hdiv, performBinary, if_pos ht, if_neg fun h => hdiv h.1]

theorem performFheOperation_enc (ht : t ∈ tfheTypes op) (a b : R) :
    performFheOperation lib (binaryToOp op).toInt [.enc t a, .enc t b] =
      .ok (.enc (tfheResultType op t) (lib.binary (binaryToOp op) t a b)) := by
  by_cases hdiv : op.IsDivision
  · rw [performFheOperation_division lib hdiv]
    have hmem : t ∈ uint4To256 := by obtain rfl | rfl := hdiv <;> exact ht
    have hresult : tfheResultType op t = t := by obtain rfl | rfl := hdiv <;> rfl
    simp only [performDivision, performBinary, hmem, true_and, if_true, hresult, id]
  · rw [performFheOperation_binary hdiv, performBinary, if_pos ⟨rfl, ht⟩]

/-- Other types are not supported next to a scalar. -/
theorem performFheOperation_unsupported (ht : t ∉ tfheTypes op) (a : R) (b : List UInt8) :
    performFheOperation lib (binaryToOp op).toInt [.enc t a, .scalar b] =
      unsupportedFheTypes (binaryToOp op) [.enc t a, .scalar b] := by
  by_cases hdiv : op.IsDivision
  · rw [performFheOperation_division lib hdiv]
    have hmem : t ∉ uint4To256 := by obtain rfl | rfl := hdiv <;> exact ht
    simp only [performDivision, performBinary, hmem, false_and, if_false]
  · rw [performFheOperation_binary hdiv, performBinary, if_neg ht]

/-! ## The library -/

/-- What a binary operation does to booleans. -/
def boolValue : BinaryOperator → Bool → Bool → Bool
  | .fheBitAnd, x, y => x && y
  | .fheBitOr, x, y => x || y
  | .fheBitXor, x, y => x != y
  | .fheEq, x, y => x == y
  | .fheNe, x, y => x != y
  | _, _, _ => false

/-- The library computes a value of the clear numbers, the same for a scalar as for a ciphertext. A
trivial encryption and a conversion cut numbers to the width of the type. -/
structure Computes (lib : TfheLibrary R) (decrypt : FheTypes → R → ℕ)
    (value : BinaryOperator → FheTypes → ℕ → ℕ → ℕ) : Prop where
  decrypt_lt (t : FheTypes) (a : R) : decrypt t a < 2 ^ t.bits
  tryEncryptTrivial (t : FheTypes) (n : ℕ) : decrypt t (lib.tryEncryptTrivial t n) = n % 2 ^ t.bits
  castInto (s t : FheTypes) (a : R) : decrypt t (lib.castInto s t a) = decrypt s a % 2 ^ t.bits
  binary {op : BinaryOperator} {t : FheTypes} (ht : t ∈ tfheTypes op) (a b : R) :
    decrypt (tfheResultType op t) (lib.binary (binaryToOp op) t a b) =
      value op t (decrypt t a) (decrypt t b)
  binaryScalar {op : BinaryOperator} {t : FheTypes} (ht : t ∈ tfheTypes op) (a : R) {n : ℕ}
    (hn : n < 2 ^ t.bits) : ¬ (op.IsDivision ∧ n = 0) →
      decrypt (tfheResultType op t) (lib.binaryScalar (binaryToOp op) t a n) =
        value op t (decrypt t a) n
  bool {op : BinaryOperator} (hop : .fheBool ∈ tfheTypes op) (x y : Bool) :
    value op .fheBool x.toNat y.toNat = (boolValue op x y).toNat

/-! ## The two paths -/

/-- Both paths have a result of the same type, which decrypts to the same value. -/
def ScalarAgrees (lib : TfheLibrary R) (decrypt : FheTypes → R → ℕ) (op : BinaryOperator)
    (t : FheTypes) (a : R) (b : List UInt8) : Prop :=
  ∃ c type r r', trivialEncryptBeBytes lib t.num b = .ok c ∧
    performFheOperation lib (binaryToOp op).toInt [.enc t a, .scalar b] = .ok (.enc type r) ∧
    performFheOperation lib (binaryToOp op).toInt [.enc t a, c] = .ok (.enc type r') ∧
    decrypt type r = decrypt type r'

/-- The number that is encrypted trivially for a scalar. -/
def trivialOperand (t : FheTypes) (b : List UInt8) : ℕ :=
  if t = .fheBool then (b.getLastD 0 != 0).toNat else BigEndian.decode b % 2 ^ t.bits

theorem trivialEncryptBeBytes_decrypts (hlib : Computes lib decrypt value) (t : FheTypes)
    (b : List UInt8) : ∃ r, trivialEncryptBeBytes lib t.num b = .ok (.enc t r) ∧
      decrypt t r = trivialOperand t b := by
  have hbytes : ∀ n bits, bits = 8 * n →
      BigEndian.decode (BigEndian.lastBytes n b) % 2 ^ bits = BigEndian.decode b % 2 ^ bits := by
    intro n bits hbits
    rw [BigEndian.decode_lastBytes, hbits, pow_mul]
    norm_num
  have hlast : ∀ bits ≤ 8, (b.getLastD 0).toNat % 2 ^ bits = BigEndian.decode b % 2 ^ bits := by
    intro bits hbits
    have hbyte : (b.getLastD 0).toNat = BigEndian.decode b % 2 ^ 8 := toBeU8Bit_eq b
    rw [hbyte, Nat.mod_mod_of_dvd _ (Nat.pow_dvd_pow 2 hbits)]
  cases t with
  | fheBool =>
    refine ⟨_, rfl, ?_⟩
    rw [hlib.tryEncryptTrivial, trivialOperand, if_pos rfl]
    have hpos : decide (0 < (b.getLastD 0).toNat) = (b.getLastD 0 != 0) := by
      rw [Bool.eq_iff_iff, decide_eq_true_eq, bne_iff_ne, ne_eq, ← UInt8.toNat_inj]
      exact Nat.pos_iff_ne_zero
    rw [hpos]
    exact Nat.mod_eq_of_lt (Bool.toNat_lt _)
  | fheUint4 => exact ⟨_, rfl, (hlib.tryEncryptTrivial _ _).trans (hlast 4 (by norm_num))⟩
  | fheUint8 => exact ⟨_, rfl, (hlib.tryEncryptTrivial _ _).trans (hlast 8 le_rfl)⟩
  | fheUint160 =>
    -- a word is encrypted, and the ciphertext is cut
    refine ⟨_, rfl, ?_⟩
    rw [hlib.castInto, hlib.tryEncryptTrivial]
    have hword := hbytes 32 FheTypes.fheUint256.bits rfl
    rw [hword]
    exact Nat.mod_mod_of_dvd _ (Nat.pow_dvd_pow 2 (by norm_num [FheTypes.bits]))
  | fheUint16 => exact ⟨_, rfl, (hlib.tryEncryptTrivial _ _).trans (hbytes 2 _ rfl)⟩
  | fheUint32 => exact ⟨_, rfl, (hlib.tryEncryptTrivial _ _).trans (hbytes 4 _ rfl)⟩
  | fheUint64 => exact ⟨_, rfl, (hlib.tryEncryptTrivial _ _).trans (hbytes 8 _ rfl)⟩
  | fheUint128 => exact ⟨_, rfl, (hlib.tryEncryptTrivial _ _).trans (hbytes 16 _ rfl)⟩
  | fheUint256 => exact ⟨_, rfl, (hlib.tryEncryptTrivial _ _).trans (hbytes 32 _ rfl)⟩
  | fheBytes64 => exact ⟨_, rfl, (hlib.tryEncryptTrivial _ _).trans (hbytes 64 _ rfl)⟩
  | fheBytes128 => exact ⟨_, rfl, (hlib.tryEncryptTrivial _ _).trans (hbytes 128 _ rfl)⟩
  | fheBytes256 => exact ⟨_, rfl, (hlib.tryEncryptTrivial _ _).trans (hbytes 256 _ rfl)⟩

theorem toNat_injective : Function.Injective Bool.toNat := by decide

theorem scalarOperand_fheBool (b : List UInt8) :
    scalarOperand .fheBool b = (arrNonZero b).toNat := rfl

theorem scalarOperand_lt (t : FheTypes) (b : List UInt8) : scalarOperand t b < 2 ^ t.bits := by
  by_cases ht : t = .fheBool
  · subst ht
    exact Bool.toNat_lt _
  · rw [scalarOperand_eq ht]
    exact Nat.mod_lt _ (Nat.two_pow_pos _)

/-- The two operands are the same number, up to booleans whose bytes are zero at the end only. -/
theorem scalarOperand_eq_trivialOperand_iff (t : FheTypes) (b : List UInt8) :
    scalarOperand t b = trivialOperand t b ↔
      (t = .fheBool → (arrNonZero b = true ↔ b.getLastD 0 ≠ 0)) := by
  by_cases ht : t = .fheBool
  · subst ht
    rw [scalarOperand_fheBool, trivialOperand, if_pos rfl, toNat_injective.eq_iff, Bool.eq_iff_iff,
      bne_iff_ne, forall_prop_of_true rfl]
  · refine iff_of_true ?_ fun h => absurd h ht
    rw [scalarOperand_eq ht, trivialOperand, if_neg ht]

/-- The operation gives this result whatever the right operand is. -/
def IgnoresScalar (op : BinaryOperator) (x : ℕ) : Prop :=
  op = .fheBitAnd ∧ x = 0 ∨ op = .fheBitOr ∧ x = 1

theorem boolValue_eq_iff (hop : .fheBool ∈ tfheTypes op) (x y z : Bool) :
    boolValue op x y = boolValue op x z ↔ y = z ∨ IgnoresScalar op x.toNat := by
  cases op with
  | fheBitAnd => cases x <;> simp [boolValue, IgnoresScalar]
  | fheBitOr => cases x <;> simp [boolValue, IgnoresScalar]
  | fheBitXor => cases x <;> simp [boolValue, IgnoresScalar]
  | fheEq => cases x <;> simp [boolValue, IgnoresScalar]
  | fheNe => cases x <;> simp [boolValue, IgnoresScalar]
  | _ => exact absurd hop (by decide)

/-- The paths agree where the library is not asked to divide by zero and computes the same value. -/
theorem scalarAgrees_iff_value (hlib : Computes lib decrypt value) (ht : t ∈ tfheTypes op) (a : R)
    (b : List UInt8) : ScalarAgrees lib decrypt op t a b ↔
      ¬ (op.IsDivision ∧ scalarOperand t b = 0) ∧
      value op t (decrypt t a) (scalarOperand t b) =
        value op t (decrypt t a) (trivialOperand t b) := by
  obtain ⟨c, hc, hdecrypt⟩ := trivialEncryptBeBytes_decrypts hlib t b
  have henc := hlib.binary ht a c
  rw [hdecrypt] at henc
  constructor
  · rintro ⟨_, type, r, r', htrivial, hscalar, hciphertext, hsame⟩
    obtain rfl := Except.ok.inj (hc.symm.trans htrivial)
    rw [performFheOperation_enc ht, Except.ok.injEq] at hciphertext
    obtain ⟨rfl, rfl⟩ := SupportedFheCiphertexts.enc.inj hciphertext
    rw [performFheOperation_scalar ht] at hscalar
    split_ifs at hscalar with hzero
    obtain ⟨-, rfl⟩ := SupportedFheCiphertexts.enc.inj (Except.ok.inj hscalar)
    rw [hlib.binaryScalar ht a (scalarOperand_lt t b) hzero, henc] at hsame
    exact ⟨hzero, hsame⟩
  · rintro ⟨hzero, hsame⟩
    refine ⟨_, _, lib.binaryScalar (binaryToOp op) t a (scalarOperand t b), _, hc, ?_,
      performFheOperation_enc ht a c, ?_⟩
    · rw [performFheOperation_scalar ht, if_neg hzero]
    · rw [hlib.binaryScalar ht a (scalarOperand_lt t b) hzero, henc, hsame]

/-- The operation on a scalar is that on its trivial encryption, but for divisors that are cut to
zero, and for booleans whose scalar is zero at its end only and matters. -/
theorem scalarAgrees_iff (hlib : Computes lib decrypt value) (op : BinaryOperator)
    (ht : t ∈ tfheTypes op) (a : R) (b : List UInt8) :
    ScalarAgrees lib decrypt op t a b ↔
      (t = .fheBool → (arrNonZero b = true ↔ b.getLastD 0 ≠ 0) ∨ IgnoresScalar op (decrypt t a)) ∧
      (op.IsDivision → BigEndian.decode b % 2 ^ t.bits ≠ 0) := by
  rw [scalarAgrees_iff_value hlib ht]
  by_cases hbool : t = .fheBool
  · subst hbool
    have hdiv : ¬ op.IsDivision := by
      rintro (rfl | rfl) <;> exact absurd ht (by decide)
    obtain ⟨x, hx⟩ : ∃ x : Bool, decrypt .fheBool a = x.toNat := by
      have hlt : decrypt .fheBool a < 2 := hlib.decrypt_lt .fheBool a
      interval_cases decrypt .fheBool a
      · exact ⟨false, rfl⟩
      · exact ⟨true, rfl⟩
    have hlast : trivialOperand .fheBool b = (b.getLastD 0 != 0).toNat := if_pos rfl
    rw [hx, hlast, scalarOperand_fheBool, hlib.bool ht, hlib.bool ht, toNat_injective.eq_iff,
      boolValue_eq_iff ht, Bool.eq_iff_iff, bne_iff_ne]
    simp only [hdiv, false_and, not_false_eq_true, true_and, forall_const, false_implies, and_true]
  · have hsame : scalarOperand t b = trivialOperand t b :=
      (scalarOperand_eq_trivialOperand_iff t b).mpr fun h => absurd h hbool
    rw [← hsame, scalarOperand_eq hbool, not_and]
    exact ⟨fun h => ⟨fun ht => absurd ht hbool, h.1⟩, fun h => ⟨h.2, rfl⟩⟩

/-! ### Clear numbers -/

/-- The library that does not encrypt, with numbers that are cut where they are used. -/
def cutLibrary : TfheLibrary ℕ where
  __ := clearLibrary
  binary op t a b := clearBinary op t (a % 2 ^ t.bits) (b % 2 ^ t.bits)
  binaryScalar op t a n := clearBinary op t (a % 2 ^ t.bits) n
  castInto s t a := a % 2 ^ s.bits % 2 ^ t.bits

def cutDecrypt (t : FheTypes) (a : ℕ) : ℕ := a % 2 ^ t.bits

theorem computes_cutLibrary : Computes cutLibrary cutDecrypt fun op t x y =>
    clearBinary (binaryToOp op) t x y % 2 ^ (tfheResultType op t).bits where
  decrypt_lt t a := Nat.mod_lt _ (Nat.two_pow_pos _)
  tryEncryptTrivial t n := Nat.mod_mod _ _
  castInto s t a := Nat.mod_mod _ _
  binary _ _ _ := rfl
  binaryScalar _ _ _ _ _ := rfl
  bool {op} hop x y := by
    cases op with
    | fheBitAnd | fheBitOr | fheBitXor | fheEq | fheNe => revert x y; decide
    | _ => exact absurd hop (by decide)

/-- The last byte of the scalar is added to 200. -/
theorem scalarAgrees_add : ScalarAgrees cutLibrary cutDecrypt .fheAdd .fheUint8 200 [1, 100] := by
  apply (scalarAgrees_iff computes_cutLibrary .fheAdd (by decide) 200 [1, 100]).mpr
  constructor
  · intro hbool
    cases hbool
  · decide

/-- The bytes 1 and 0 are true next to a boolean, but encrypted they are false. -/
theorem not_scalarAgrees_and :
    ¬ ScalarAgrees cutLibrary cutDecrypt .fheBitAnd .fheBool 1 [1, 0] := by
  rw [scalarAgrees_iff_value computes_cutLibrary (by decide)]
  decide

end Fhevm.Listener
