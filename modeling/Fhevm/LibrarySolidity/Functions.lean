import Fhevm.LibrarySolidity.Calls

/-!
# The functions of the library

Every generated function is followed through its body: an operand without a value is replaced by an
encryption of zero, a narrow operand is cast, and the executor is called. The result stands for the
meaning of the function. The functions that do not look whether their operand is initialized are
right for operands that are.

## Main definitions

* `Argument` — an argument of a function, with its value.
* `readsUnchecked` — the functions that do not look whether their operand is initialized.
* `LibFunction.Sound` — what is proved of each function.
-/

namespace Fhevm.LibrarySolidity

open Foundation Host FHEVMExecutor

/-! ## What the tables guarantee -/

/-- The executor accepts the operator on the type, and its result is of the type of the library. -/
def Operator.accepts (op : Operator) (type : TypeName) : Bool :=
  match op.arguments with
  | .binary f => decide (type.fheType ∈ f.supportedTypes) &&
      decide ((op.returnType.typeName type).fheType = f.resultType type.fheType)
  | .unary f => decide (type.fheType ∈ f.supportedTypes)

set_option synthInstance.maxSize 1000 in
/-- What the tables say of an operator of a type: shifts are on unsigned types, the operator for a
left plaintext is there too, and addresses are only compared. Of a type: the executor encrypts it,
and unsigned types of the same width are the same. Of an operator: one with two encrypted operands
takes a scalar too, and the one for a left plaintext is in the table and is no division. -/
theorem tables :
    (∀ T ∈ adjustedFheTypes, ∀ op ∈ ALL_OPERATORS,
      op.name ∈ T.supportedOperators → op.accepts T.type = true ∧
        (op.shiftOperator = true ∨ op.rotateOperator = true → T.type.isUint = true ∧
          8 ≤ T.bitLength ∧ op.isBinary = true ∧ op.hasEncrypted = true ∧ op.hasScalar = true ∧
            op.returnType = .euint) ∧
        op.leftScalarInvertOp.getD op.name ∈ T.supportedOperators ∧
        (T.type = .address → op.returnType = .ebool)) ∧
    (∀ T ∈ adjustedFheTypes,
      T.type.fheType ∈ boolAndUint8To160And256 ∧ 0 < T.type.bits ∧
        T.clearMatchingType.bits = T.type.bits ∧
        (T.type.isUint = true → T.bitLength = T.type.bits ∧ T.type.fheType ∈ uint8To256 ∧
          T.type ≠ .fhe .bool ∧ (8 < T.bitLength ↔ FheType.uint8 ≠ T.type.fheType) ∧
          ∀ T' ∈ adjustedFheTypes, T'.type.isUint = true →
            (T.type.fheType = T'.type.fheType ↔ T.bitLength = T'.bitLength))) ∧
    (∀ op ∈ ALL_OPERATORS,
      (op.hasEncrypted = true → op.hasScalar = true) ∧ op.name ≠ .select ∧
        (op.isBinary = true → op.leftScalarDisable = false → op.leftScalarEncrypt = false →
          ∃ inverse ∈ ALL_OPERATORS, inverse.name = op.leftScalarInvertOp.getD op.name ∧
            inverse.isBinary = true ∧ inverse.hasScalar = true ∧
            inverse.returnType = op.returnType ∧ inverse.name ≠ .div ∧ inverse.name ≠ .rem)) := by
  decide +kernel

theorem accepts_of_supported : ∀ T ∈ adjustedFheTypes, ∀ op ∈ ALL_OPERATORS,
    op.name ∈ T.supportedOperators → op.accepts T.type = true :=
  fun T hT op hop hsupported => (tables.1 T hT op hop hsupported).1

theorem accepts_binary {op : Operator} {f : BinaryOperator} {type : TypeName}
    (hf : op.arguments = .binary f) (h : op.accepts type = true) :
    type.fheType ∈ f.supportedTypes ∧
      (op.returnType.typeName type).fheType = f.resultType type.fheType := by
  simpa [Operator.accepts, hf] using h

theorem accepts_unary {op : Operator} {f : UnaryOperator} {type : TypeName}
    (hf : op.arguments = .unary f) (h : op.accepts type = true) :
    type.fheType ∈ f.supportedTypes := by
  simpa [Operator.accepts, hf] using h

theorem isBinary_iff {op : Operator} : op.isBinary = true ↔ ∃ f, op.arguments = .binary f := by
  unfold Operator.isBinary
  cases op.arguments <;> simp

theorem isBinary_eq_false_iff {op : Operator} :
    op.isBinary = false ↔ ∃ f, op.arguments = .unary f := by
  unfold Operator.isBinary
  cases op.arguments <;> simp

theorem adjusted_supported : ∀ T ∈ adjustedFheTypes,
    T.type.fheType ∈ boolAndUint8To160And256 :=
  fun T hT => (tables.2.1 T hT).1

theorem adjusted_pos : ∀ T ∈ adjustedFheTypes, 0 < T.type.bits :=
  fun T hT => (tables.2.1 T hT).2.1

theorem adjusted_clearBits : ∀ T ∈ adjustedFheTypes, T.clearMatchingType.bits = T.type.bits :=
  fun T hT => (tables.2.1 T hT).2.2.1

theorem adjusted_uint : ∀ T ∈ adjustedFheTypes, T.type.isUint = true →
    T.bitLength = T.type.bits ∧ T.type.fheType ∈ uint8To256 ∧ T.type ≠ .fhe .bool := by
  intro T hT huint
  obtain ⟨hbits, htype, hbool, -⟩ := (tables.2.1 T hT).2.2.2 huint
  exact ⟨hbits, htype, hbool⟩

theorem adjusted_bits : ∀ T ∈ adjustedFheTypes, ∀ T' ∈ adjustedFheTypes,
    T.type.isUint = true → T'.type.isUint = true →
      (T.type.fheType = T'.type.fheType ↔ T.bitLength = T'.bitLength) :=
  fun T hT T' hT' huint => ((tables.2.1 T hT).2.2.2 huint).2.2.2.2 T' hT'

theorem adjusted_shift : ∀ T ∈ adjustedFheTypes, ∀ op ∈ ALL_OPERATORS,
    op.shiftOperator = true ∨ op.rotateOperator = true → op.name ∈ T.supportedOperators →
      T.type.isUint = true ∧ 8 ≤ T.bitLength ∧ op.isBinary = true ∧ op.hasEncrypted = true ∧
        op.hasScalar = true ∧ op.returnType = .euint :=
  fun T hT op hop hshift hsupported =>
    (tables.1 T hT op hop hsupported).2.1 hshift

theorem adjusted_uint8 : ∀ T ∈ adjustedFheTypes, T.type.isUint = true →
    (8 < T.bitLength ↔ FheType.uint8 ≠ T.type.fheType) :=
  fun T hT huint => ((tables.2.1 T hT).2.2.2 huint).2.2.2.1

theorem encrypted_scalar : ∀ op ∈ ALL_OPERATORS, op.hasEncrypted = true → op.hasScalar = true :=
  fun op hop => (tables.2.2 op hop).1

theorem uint8To256_subset : ∀ t ∈ uint8To256, t ∈ boolAndUint8To256 := by decide

/-! ## Arguments -/

/-- An argument with its value: a handle that stands for it, the zero handle for zero, or a
plaintext. -/
def Argument (E : Execution) (clear : ClearTexts) (s : LibraryState) :
    ParamType → Bytes32 → Nat → Prop
  | .encrypted type, v, value => v = 0 ∧ value = 0 ∨ Holds E clear s type.fheType value v
  | .clear type, v, value => v.toNat = value ∧ value < 2 ^ type.bits

/-- The functions that hand their operand to the executor without looking whether it is
initialized. -/
def readsUnchecked : FunctionName → List ParamType → Bool
  | .operator .neg, _ | .operator .not, _ => true
  | .asE type, [.encrypted _] => type ≠ .fhe .bool
  | _, _ => false

/-- The reverts of a function for operands that it may be given. -/
def Permitted (name : FunctionName) (values : Nat → Nat) (e : HostError) : Prop :=
  e.IsRefusal ∨
    e = .divisionByZero ∧ (name = .operator .div ∨ name = .operator .rem) ∧ values 1 = 0

/-- The function is right on operands that are initialized where it does not look. -/
def LibFunction.Sound (E : Execution) (clear : ClearTexts) (f : LibFunction) : Prop :=
  ∀ s args values, (∀ i p, f.params[i]? = some p → Argument E clear s p (args i) (values i)) →
    (readsUnchecked f.name f.params = true → isInitialized (args 0) = true) →
      Post (Yields E clear s f.returnType.fheType (meaning f.name f.params values))
        (Permitted f.name values) (f.body args s)

section Bodies

variable {E : Execution} {clear : ClearTexts} {s s' : LibraryState} {v : Bytes32} {value : Nat}

theorem isInitialized_iff : isInitialized v = true ↔ v ≠ 0 := by simp [isInitialized]

theorem Argument.mono {p : ParamType} (h : Argument E clear s p v value) (hkeeps : Keeps E s s') :
    Argument E clear s' p v value := by
  cases p with
  | encrypted type => exact h.imp_right (·.mono hkeeps)
  | clear type => exact h

theorem Argument.holds {type : TypeName} (h : Argument E clear s (.encrypted type) v value)
    (hv : isInitialized v = true) : Holds E clear s type.fheType value v := by
  obtain ⟨hzero, -⟩ | hholds := h
  · exact absurd hzero ((isInitialized_iff).mp hv)
  · exact hholds

theorem Argument.lt {p : ParamType} (h : Argument E clear s p v value) (hs : Evaluated clear s) :
    value < 2 ^ p.bits := by
  cases p with
  | encrypted type =>
    obtain ⟨-, rfl⟩ | hholds := h
    · exact Nat.two_pow_pos _
    · exact hholds.lt hs
  | clear type => exact h.2

theorem checkInitialized_yields (hslots : SlotsFree E) {type : TypeName}
    (ht : type.fheType ∈ boolAndUint8To160And256)
    (h : Argument E clear s (.encrypted type) v value) :
    Post (Yields E clear s type.fheType value) HostError.IsRefusal
      (checkInitialized E type v s) := by
  by_cases hv : isInitialized v = true
  · rw [checkInitialized, if_pos hv]
    exact Post.pure ⟨Keeps.refl, h.holds hv⟩
  · rw [checkInitialized, if_neg hv]
    have hvalue : value = 0 := by
      obtain ⟨-, hvalue⟩ | hholds := h
      · exact hvalue
      · exact absurd ((isInitialized_iff).mpr hholds.initialized) hv
    subst hvalue
    exact trivialEncrypt_yields hslots 0 ht

/-- A cast to a wider type keeps the value. -/
theorem widen_yields (hslots : SlotsFree E) {needed : Bool} {input output : TypeName}
    (h : Holds E clear s input.fheType value v)
    (hcast : needed = true → input.fheType ∈ uint8To256 ∧ output.fheType ∈ uint8To256 ∧
      input.fheType ≠ output.fheType ∧ input.bits ≤ output.bits)
    (hsame : needed = false → input.fheType = output.fheType) :
    Post (Yields E clear s output.fheType value) HostError.IsRefusal
      (widen E needed v output s) := by
  cases needed with
  | false => exact Post.pure ⟨Keeps.refl, hsame rfl ▸ h⟩
  | true =>
    obtain ⟨hinput, houtput, hne, hbits⟩ := hcast rfl
    apply (cast_yields hslots h (uint8To256_subset _ hinput) houtput hne).imp
    rintro ⟨handle, s'⟩ hr
    refine ⟨hr.keeps, hr.holds.congr ?_⟩
    intro hs'
    have hlt := (h.mono hr.keeps).lt hs'
    exact Nat.mod_eq_of_lt (hlt.trans_le (Nat.pow_le_pow_right (by decide) hbits))

/-- What casts an operator on two handles makes. -/
structure Promotes (lhs rhs output : TypeName) (castLeftToRight castRightToLeft : Bool) : Prop where
  left : castLeftToRight = true → lhs.fheType ∈ uint8To256 ∧ output.fheType ∈ uint8To256 ∧
    lhs.fheType ≠ output.fheType ∧ lhs.bits ≤ output.bits
  left_same : castLeftToRight = false → lhs.fheType = output.fheType
  right : castRightToLeft = true → rhs.fheType ∈ uint8To256 ∧ output.fheType ∈ uint8To256 ∧
    rhs.fheType ≠ output.fheType ∧ rhs.bits ≤ output.bits
  right_same : castRightToLeft = false → rhs.fheType = output.fheType

theorem Promotes.same (type : TypeName) : Promotes type type type false false :=
  ⟨nofun, fun _ => rfl, nofun, fun _ => rfl⟩

theorem encryptedOperator_yields (hslots : SlotsFree E) {op : Operator} {f : BinaryOperator}
    {lhs rhs output : TypeName} {castLeftToRight castRightToLeft : Bool} {args : Nat → Bytes32}
    {a b : Nat} (hop : op ∈ ALL_OPERATORS) (hf : op.arguments = .binary f)
    (hencrypted : op.hasEncrypted = true) (hlhs : lhs.fheType ∈ boolAndUint8To160And256)
    (hrhs : rhs.fheType ∈ boolAndUint8To160And256) (houtput : output.fheType ∈ f.supportedTypes)
    (hpromotes : Promotes lhs rhs output castLeftToRight castRightToLeft)
    (ha : Argument E clear s (.encrypted lhs) (args 0) a)
    (hb : Argument E clear s (.encrypted rhs) (args 1) b) :
    Post (Yields E clear s (f.resultType output.fheType)
        (op.name.apply (twoOperands output.bits a b))) HostError.IsRefusal
      (encryptedOperator E op.name lhs rhs output castLeftToRight castRightToLeft args s) := by
  apply Post.bind (checkInitialized_yields hslots hlhs ha)
  rintro ⟨_, s₁⟩ ⟨hkeeps₁, ha₁⟩
  apply Post.bind (checkInitialized_yields hslots hrhs (hb.mono hkeeps₁))
  rintro ⟨_, s₂⟩ ⟨hkeeps₂, hb₂⟩
  apply Post.bind (widen_yields hslots (ha₁.mono hkeeps₂) hpromotes.left hpromotes.left_same)
  rintro ⟨_, s₃⟩ ⟨hkeeps₃, ha₃⟩
  apply Post.bind (widen_yields hslots (hb₂.mono hkeeps₃) hpromotes.right hpromotes.right_same)
  rintro ⟨_, s₄⟩ ⟨hkeeps₄, hb₄⟩
  apply (binary_yields hslots hop hf hencrypted (encrypted_scalar op hop hencrypted) houtput
    (ha₃.mono hkeeps₄) hb₄).imp
  intro r hr
  exact hr.trans (((hkeeps₁.trans hkeeps₂).trans hkeeps₃).trans hkeeps₄)

theorem not_permitted_of_division {op : Operator} {f : BinaryOperator} (hop : op ∈ ALL_OPERATORS)
    (hf : op.arguments = .binary f) (hdivision : f.IsDivision) :
    op.name = .div ∨ op.name = .rem := by
  have hnames : ∀ op ∈ ALL_OPERATORS,
      op.arguments = .binary .fheDiv ∨ op.arguments = .binary .fheRem →
        op.name = .div ∨ op.name = .rem := by decide
  obtain rfl | rfl := hdivision
  · exact hnames op hop (.inl hf)
  · exact hnames op hop (.inr hf)

theorem rightScalarOperator_yields (hslots : SlotsFree E) {op : Operator} {f : BinaryOperator}
    {type : TypeName} {handle word : Bytes32} {a b : Nat} (hop : op ∈ ALL_OPERATORS)
    (hf : op.arguments = .binary f) (hscalar : op.hasScalar = true)
    (htype : type.fheType ∈ boolAndUint8To160And256) (ht : type.fheType ∈ f.supportedTypes)
    (ha : Argument E clear s (.encrypted type) handle a) (hb : word.toNat = b)
    (hlt : b < 2 ^ type.bits) :
    Post (Yields E clear s (f.resultType type.fheType)
        (op.name.apply (twoOperands type.bits a b)))
      (fun e => e.IsRefusal ∨ e = .divisionByZero ∧ (op.name = .div ∨ op.name = .rem) ∧ b = 0)
      (rightScalarOperator E op.name type handle word s) := by
  apply Post.bind ((checkInitialized_yields hslots htype ha).mono (fun _ => id) fun _ => .inl)
  rintro ⟨v, s₁⟩ ⟨hkeeps₁, ha₁⟩
  subst hb
  by_cases hzero : f.IsDivision ∧ word = 0
  · obtain ⟨hdivision, rfl⟩ := hzero
    have hrefused : Impl.binary E op.name v 0 true s₁ = .error .divisionByZero :=
      division_by_zero hop hf hdivision
    simp only [hrefused]
    exact Post.throw (.inr ⟨rfl, not_permitted_of_division hop hf hdivision, rfl⟩)
  · apply (scalar_yields hslots hop hf hscalar ht ha₁ hlt fun hd h0 => hzero ⟨hd, h0⟩).mono
    · exact fun r hr => hr.trans hkeeps₁
    · exact fun _ => .inl

/-- The operator for a left plaintext, as the table has it. -/
theorem leftScalar_operator : ∀ op ∈ ALL_OPERATORS, op.isBinary = true →
    op.leftScalarDisable = false → op.leftScalarEncrypt = false →
      ∃ inverse ∈ ALL_OPERATORS, inverse.name = op.leftScalarInvertOp.getD op.name ∧
        inverse.isBinary = true ∧ inverse.hasScalar = true ∧ inverse.returnType = op.returnType ∧
          inverse.name ≠ .div ∧ inverse.name ≠ .rem :=
  fun op hop => (tables.2.2 op hop).2.2

theorem leftScalar_supported : ∀ T ∈ adjustedFheTypes, ∀ op ∈ ALL_OPERATORS,
    op.name ∈ T.supportedOperators →
      op.leftScalarInvertOp.getD op.name ∈ T.supportedOperators :=
  fun T hT op hop hsupported => (tables.1 T hT op hop hsupported).2.2.1

theorem leftScalar_encrypted : ∀ op ∈ ALL_OPERATORS, op.leftScalarEncrypt = true →
    op.hasEncrypted = true ∧ op.leftScalarInvertOp.getD op.name = op.name := by decide

theorem twoOperands_swap {n a b : Nat} :
    (fun i => twoOperands n a b (1 - i)) = twoOperands n b a := by
  funext i
  unfold twoOperands
  grind

theorem leftScalarOperator_yields (hslots : SlotsFree E) {op : Operator} {f : BinaryOperator}
    {T : AdjustedFheType} {word handle : Bytes32} {a b : Nat} (hT : T ∈ adjustedFheTypes)
    (hop : op ∈ ALL_OPERATORS) (hf : op.arguments = .binary f)
    (hsupported : op.name ∈ T.supportedOperators) (hdisable : op.leftScalarDisable = false)
    (ha : word.toNat = a) (hlt : a < 2 ^ T.type.bits)
    (hb : Argument E clear s (.encrypted T.type) handle b) :
    Post (Yields E clear s (op.returnType.typeName T.type).fheType
        (op.name.apply (twoOperands T.type.bits a b)))
      HostError.IsRefusal (leftScalarOperator E op T.type word handle s) := by
  have htype := adjusted_supported T hT
  obtain ⟨ht, hreturn⟩ := accepts_binary hf (accepts_of_supported T hT op hop hsupported)
  by_cases hencrypt : op.leftScalarEncrypt = true
  · obtain ⟨hencrypted, hname⟩ := leftScalar_encrypted op hop hencrypt
    simp only [leftScalarOperator, hencrypt, if_true, hname]
    apply Post.bind (trivialEncrypt_yields hslots word htype)
    rintro ⟨_, s₁⟩ ⟨hkeeps₁, ha₁⟩
    apply Post.bind (checkInitialized_yields hslots htype (hb.mono hkeeps₁))
    rintro ⟨_, s₂⟩ ⟨hkeeps₂, hb₂⟩
    rw [ha] at ha₁
    apply (binary_yields hslots hop hf hencrypted (encrypted_scalar op hop hencrypted) ht
      (ha₁.mono hkeeps₂) hb₂).imp
    intro r hr
    exact hreturn ▸ hr.trans (hkeeps₁.trans hkeeps₂)
  · have hencrypt := Bool.eq_false_iff.mpr hencrypt
    have hbinary := (isBinary_iff).mpr ⟨f, hf⟩
    obtain ⟨inverse, hinverse, hname, hbinary', hscalar', hreturn', hdiv, hrem⟩ :=
      leftScalar_operator op hop hbinary hdisable hencrypt
    obtain ⟨g, hg⟩ := (isBinary_iff).mp hbinary'
    have hsupported' : inverse.name ∈ T.supportedOperators :=
      hname ▸ leftScalar_supported T hT op hop hsupported
    obtain ⟨ht', hreturnType⟩ :=
      accepts_binary hg (accepts_of_supported T hT inverse hinverse hsupported')
    have hswap : inverse.name.apply (twoOperands T.type.bits b a) =
        op.name.apply (twoOperands T.type.bits a b) := by
      rw [hname, ← twoOperands_swap, apply_leftScalar hop hencrypt hdisable hbinary]
    have hbody : leftScalarOperator E op T.type word handle s =
        rightScalarOperator E inverse.name T.type handle word s := by
      simp only [leftScalarOperator, hencrypt, hname, rightScalarOperator, Bool.false_eq_true,
        if_false]
    rw [hbody, ← hswap, ← hreturn', hreturnType]
    apply (rightScalarOperator_yields hslots hinverse hg hscalar' htype ht' hb ha hlt).mono
    · exact fun _ => id
    · rintro e (hrefusal | ⟨-, hname' | hname', -⟩)
      · exact hrefusal
      · exact absurd hname' hdiv
      · exact absurd hname' hrem

end Bodies

/-! ## Meanings -/

section Meanings

variable {name : OperatorName} {p q : ParamType} {values : Nat → Nat}

/-- The operators but `select` have two operands at most. -/
theorem apply_congr {w : Nat} {x y : Nat → BitVec w} (hname : name ≠ .select) (h0 : x 0 = y 0)
    (h1 : x 1 = y 1) : name.apply x = name.apply y := by
  cases name with
  | select => exact absurd rfl hname
  | _ => simp only [OperatorName.apply, h0, h1]

theorem meaning_binary {w : Nat} (hname : name ≠ .select) (hw : max p.bits q.bits = w) :
    meaning (.operator name) [p, q] values =
      name.apply (twoOperands w (values 0) (values 1)) := by
  have hbits : promotedBits [p, q] = w := by simpa [promotedBits] using hw
  rw [meaning, hbits]
  exact apply_congr hname rfl rfl

theorem ofNat_eq_zero {w n : Nat} (h : n < 2 ^ w) : BitVec.ofNat w n = 0 ↔ n = 0 := by
  rw [← BitVec.toNat_inj, BitVec.toNat_ofNat, Nat.mod_eq_of_lt h]
  simp

/-- A choice is a boolean, and its two operands are of one type. -/
theorem meaning_select {type : TypeName} (hpos : 0 < type.bits)
    (hchoice : values 0 < 2 ^ (ParamType.encrypted (.fhe .bool)).bits)
    (htrue : values 1 < 2 ^ type.bits) (hfalse : values 2 < 2 ^ type.bits) :
    meaning (.operator .select) [.encrypted (.fhe .bool), .encrypted type, .encrypted type] values =
      if values 0 = 1 then values 1 else values 2 := by
  have hbits : promotedBits [.encrypted (.fhe .bool), .encrypted type, .encrypted type] =
      type.bits := by
    have hbool : (ParamType.encrypted (.fhe .bool)).bits = 1 := rfl
    have htype : (ParamType.encrypted type).bits = type.bits := rfl
    simp only [promotedBits, List.map_cons, List.map_nil, List.foldr_cons, List.foldr_nil, hbool,
      htype]
    omega
  have hchoice : values 0 < 2 := hchoice
  have htwo : 2 ^ 1 ≤ 2 ^ type.bits := Nat.pow_le_pow_right (by decide) hpos
  rw [← hbits] at htrue hfalse htwo
  simp only [meaning, OperatorName.apply, BitVec.toNat_ofNat, Nat.mod_eq_of_lt htrue,
    Nat.mod_eq_of_lt hfalse, ofNat_eq_zero (hchoice.trans_le htwo)]
  split_ifs with h0 h1
  · omega
  · rfl
  · rfl
  · omega

theorem meaning_cast {type : TypeName} {params : List ParamType} (htype : type ≠ .fhe .bool) :
    meaning (.asE type) params values = values 0 % 2 ^ type.fheType.numBits := by
  unfold meaning
  split
  · rename_i heq
    cases heq
  · rename_i heq
    cases heq
    exact absurd rfl htype
  · rename_i heq
    cases heq
    rfl

end Meanings

/-! ## Generators -/

section Generators

variable {E : Execution} {clear : ClearTexts} {f : LibFunction}

/-- No operator of the table is `select`. -/
theorem name_ne_select : ∀ op ∈ ALL_OPERATORS, op.name ≠ .select :=
  fun op hop => (tables.2.2 op hop).2.1

/-- Two numbers are cast to the type of the wider one. -/
theorem promotes_wider {L R : AdjustedFheType} (hL : L ∈ adjustedFheTypes)
    (hR : R ∈ adjustedFheTypes) (hLuint : L.type.isUint = true) (hRuint : R.type.isUint = true) :
    Promotes L.type R.type (if decide (L.bitLength < R.bitLength) then R.type else L.type)
      (decide (L.bitLength < R.bitLength)) (decide (L.bitLength > R.bitLength)) := by
  obtain ⟨hLbits, hLsupported, -⟩ := adjusted_uint L hL hLuint
  obtain ⟨hRbits, hRsupported, -⟩ := adjusted_uint R hR hRuint
  have htypes := adjusted_bits L hL R hR hLuint hRuint
  by_cases hlt : L.bitLength < R.bitLength
  · have hgt : ¬ L.bitLength > R.bitLength := by omega
    simp only [hlt, hgt, decide_true, decide_false, if_true]
    refine ⟨fun _ => ⟨hLsupported, hRsupported, ?_, ?_⟩, nofun, nofun, fun _ => rfl⟩
    · rw [ne_eq, htypes]
      omega
    · omega
  · simp only [hlt, decide_false, Bool.false_eq_true, if_false]
    refine ⟨nofun, fun _ => rfl, ?_, ?_⟩
    · intro hgt
      have hgt := of_decide_eq_true hgt
      refine ⟨hRsupported, hLsupported, ?_, ?_⟩
      · rw [ne_comm, ne_eq, htypes]
        omega
      · omega
    · intro hle
      have hle := of_decide_eq_false hle
      exact (htypes.mpr (by omega)).symm

/-- The functions on two handles. -/
theorem sound_encryptedOperator (hslots : SlotsFree E) {op : Operator} {lhs rhs output : TypeName}
    {castLeftToRight castRightToLeft : Bool} (hop : op ∈ ALL_OPERATORS)
    (hbinary : op.isBinary = true) (hencrypted : op.hasEncrypted = true)
    (hlhs : lhs.fheType ∈ boolAndUint8To160And256) (hrhs : rhs.fheType ∈ boolAndUint8To160And256)
    (haccepts : op.accepts output = true)
    (hpromotes : Promotes lhs rhs output castLeftToRight castRightToLeft)
    (hbits : output.bits = max lhs.bits rhs.bits) :
    LibFunction.Sound E clear
      { name := .operator op.name
        params := [.encrypted lhs, .encrypted rhs]
        returnType := op.returnType.typeName output
        body := encryptedOperator E op.name lhs rhs output castLeftToRight castRightToLeft } := by
  obtain ⟨g, hg⟩ := (isBinary_iff).mp hbinary
  obtain ⟨ht, hreturn⟩ := accepts_binary hg haccepts
  have hwidth : max (ParamType.encrypted lhs).bits (ParamType.encrypted rhs).bits = output.bits :=
    hbits.symm
  intro s args values hargs _
  simp only [hreturn, meaning_binary (name_ne_select op hop) hwidth]
  apply (encryptedOperator_yields hslots hop hg hencrypted hlhs hrhs ht hpromotes
    (hargs 0 _ rfl) (hargs 1 _ rfl)).mono (fun _ => id)
  exact fun _ => .inl

theorem typeName_bool (returnType : ReturnType) :
    returnType.typeName (.fhe .bool) = .fhe .bool := by
  cases returnType <;> rfl

/-- Addresses are only compared. -/
theorem adjusted_address : ∀ T ∈ adjustedFheTypes, T.type = .address → ∀ op ∈ ALL_OPERATORS,
    op.name ∈ T.supportedOperators → op.returnType = .ebool :=
  fun T hT haddress op hop hsupported =>
    (tables.1 T hT op hop hsupported).2.2.2 haddress

theorem sound_encrypted (hslots : SlotsFree E) {L R : AdjustedFheType} {op : Operator}
    (hL : L ∈ adjustedFheTypes) (hR : R ∈ adjustedFheTypes) (hop : op ∈ ALL_OPERATORS)
    (h : f ∈ handleSolidityTFHEEncryptedOperatorForTwoEncryptedTypes E L R op) :
    f.Sound E clear := by
  have hLtype := adjusted_supported L hL
  have hRtype := adjusted_supported R hR
  unfold handleSolidityTFHEEncryptedOperatorForTwoEncryptedTypes at h
  split_ifs at h with hshift hencrypted hsupported huint hbool haddress
  · cases h
  · cases h
  · cases h
  all_goals
    simp only [Bool.or_eq_true, Bool.not_eq_true', not_or, Bool.not_eq_false,
      List.contains_iff_mem] at hencrypted hsupported
    have hLaccepts := accepts_of_supported L hL op hop hsupported.1
    have hRaccepts := accepts_of_supported R hR op hop hsupported.2
  · obtain ⟨hLuint, hRuint⟩ := Bool.and_eq_true_iff.mp huint
    obtain ⟨hLbits, -⟩ := adjusted_uint L hL hLuint
    obtain ⟨hRbits, -⟩ := adjusted_uint R hR hRuint
    obtain rfl := List.mem_singleton.mp h
    apply sound_encryptedOperator hslots hop hencrypted.2 hencrypted.1 hLtype hRtype _
      (promotes_wider hL hR hLuint hRuint)
    · split_ifs with hlt
      · have hlt := of_decide_eq_true hlt
        omega
      · have hle : ¬ L.bitLength < R.bitLength := by simpa using hlt
        omega
    · split_ifs
      · exact hRaccepts
      · exact hLaccepts
  · obtain rfl := List.mem_singleton.mp h
    have hsound : LibFunction.Sound E clear _ :=
      sound_encryptedOperator hslots hop hencrypted.2 hencrypted.1 (hbool.1 ▸ hLtype)
        (hbool.1 ▸ hLtype) (hbool.1 ▸ hLaccepts) (Promotes.same (.fhe .bool)) rfl
    rwa [typeName_bool] at hsound
  · obtain rfl := List.mem_singleton.mp h
    have hreturn := adjusted_address L hL haddress.1 op hop hsupported.1
    have hsound : LibFunction.Sound E clear _ :=
      sound_encryptedOperator hslots hop hencrypted.2 hencrypted.1 (haddress.1 ▸ hLtype)
        (haddress.1 ▸ hLtype) (haddress.1 ▸ hLaccepts) (Promotes.same .address) rfl
    rwa [hreturn] at hsound
  · cases h

theorem sound_scalar (hslots : SlotsFree E) {T : AdjustedFheType} {op : Operator}
    (hT : T ∈ adjustedFheTypes) (hop : op ∈ ALL_OPERATORS)
    (h : f ∈ generateSolidityTFHEScalarOperator E T op) : f.Sound E clear := by
  have htype := adjusted_supported T hT
  have hbits := adjusted_clearBits T hT
  unfold generateSolidityTFHEScalarOperator at h
  split_ifs at h with hshift hbinary hscalar hsupported hdisable
  · cases h
  · cases h
  · cases h
  · cases h
  all_goals
    simp only [Bool.not_eq_true', Bool.not_eq_false] at hbinary hscalar hsupported
    rw [List.contains_iff_mem] at hsupported
    obtain ⟨g, hg⟩ := (isBinary_iff).mp hbinary
    obtain ⟨ht, hreturn⟩ := accepts_binary hg (accepts_of_supported T hT op hop hsupported)
    have hright : max (ParamType.encrypted T.type).bits (ParamType.clear T.clearMatchingType).bits =
        T.type.bits := by
      simp only [ParamType.bits, hbits, max_self]
    have hleft : max (ParamType.clear T.clearMatchingType).bits (ParamType.encrypted T.type).bits =
        T.type.bits := by
      rw [max_comm, hright]
    have hrightSound : LibFunction.Sound E clear
        { name := .operator op.name
          params := [.encrypted T.type, .clear T.clearMatchingType]
          returnType := op.returnType.typeName T.type
          body := fun args => rightScalarOperator E op.name T.type (args 0) (args 1) } := by
      intro s args values hargs _
      obtain ⟨hb, hlt⟩ := hargs 1 _ rfl
      rw [hbits] at hlt
      simp only [hreturn, meaning_binary (name_ne_select op hop) hright]
      apply (rightScalarOperator_yields hslots hop hg hscalar htype ht (hargs 0 _ rfl) hb hlt).mono
        (fun _ => id)
      rintro e (hrefusal | ⟨hzero, hname, hvalue⟩)
      · exact .inl hrefusal
      · exact .inr ⟨hzero, hname.imp (congrArg _) (congrArg _), hvalue⟩
  · obtain rfl := List.mem_singleton.mp h
    exact hrightSound
  · obtain rfl | h := List.mem_cons.mp h
    · exact hrightSound
    · obtain rfl := List.mem_singleton.mp h
      intro s args values hargs _
      obtain ⟨ha, hlt⟩ := hargs 0 _ rfl
      rw [hbits] at hlt
      simp only [meaning_binary (name_ne_select op hop) hleft]
      apply (leftScalarOperator_yields hslots hT hop hg hsupported (Bool.eq_false_iff.mpr hdisable)
        ha hlt (hargs 1 _ rfl)).mono (fun _ => id)
      exact fun _ => .inl

theorem sound_shift (hslots : SlotsFree E) {T : AdjustedFheType} {op : Operator}
    (hT : T ∈ adjustedFheTypes) (hop : op ∈ ALL_OPERATORS)
    (h : f ∈ handleSolidityTFHEShiftOperator E T op) : f.Sound E clear := by
  have htype := adjusted_supported T hT
  unfold handleSolidityTFHEShiftOperator at h
  split_ifs at h with hshift hsupported
  · cases h
  · rw [List.contains_iff_mem] at hsupported
    have hshift : op.shiftOperator = true ∨ op.rotateOperator = true := by
      simpa [imp_iff_or_not, or_comm] using hshift
    obtain ⟨huint, hwide, hbinary, hencrypted, hscalar, hreturnType⟩ :=
      adjusted_shift T hT op hop hshift hsupported
    obtain ⟨hbits, hsupportedType, -⟩ := adjusted_uint T hT huint
    have haccepts := accepts_of_supported T hT op hop hsupported
    have hwidth : T.type.bits = max T.type.bits (TypeName.fhe .uint8).bits :=
      (max_eq_left (hbits ▸ hwide)).symm
    obtain rfl | h := List.mem_cons.mp h
    · have huint8 := adjusted_uint8 T hT huint
      have hpromotes : Promotes T.type (.fhe .uint8) T.type false (decide (T.bitLength > 8)) := by
        refine ⟨nofun, fun _ => rfl, fun hgt => ?_, fun hle => ?_⟩
        · exact ⟨by decide, hsupportedType, huint8.mp (of_decide_eq_true hgt), hbits ▸ hwide⟩
        · exact not_not.mp (mt huint8.mpr (of_decide_eq_false hle))
      have hsound : LibFunction.Sound E clear _ :=
        sound_encryptedOperator hslots hop hbinary hencrypted htype
        (by decide) haccepts hpromotes hwidth
      rwa [hreturnType] at hsound
    · obtain rfl := List.mem_singleton.mp h
      obtain ⟨g, hg⟩ := (isBinary_iff).mp hbinary
      obtain ⟨ht, hreturn⟩ := accepts_binary hg haccepts
      rw [hreturnType] at hreturn
      have hreturn : g.resultType T.type.fheType = T.type.fheType := hreturn.symm
      have hwidth : max (ParamType.encrypted T.type).bits (ParamType.clear (.uint 8)).bits =
          T.type.bits := hwidth.symm
      intro s args values hargs _
      obtain ⟨hb, hlt⟩ := hargs 1 _ rfl
      have hlt : values 1 < 2 ^ T.type.bits :=
        hlt.trans_le (Nat.pow_le_pow_right (by decide) (hbits ▸ hwide))
      have hyields :=
        rightScalarOperator_yields hslots hop hg hscalar htype ht (hargs 0 _ rfl) hb hlt
      rw [hreturn] at hyields
      simp only [meaning_binary (name_ne_select op hop) hwidth]
      apply hyields.mono (fun _ => id)
      rintro e (hrefusal | ⟨hzero, hname, hvalue⟩)
      · exact .inl hrefusal
      · exact .inr ⟨hzero, hname.imp (congrArg _) (congrArg _), hvalue⟩
  · cases h

theorem sound_select (hslots : SlotsFree E) {T : AdjustedFheType} (hT : T ∈ adjustedFheTypes)
    (h : f ∈ handleSolidityTFHESelect E T) : f.Sound E clear := by
  have htype := adjusted_supported T hT
  unfold handleSolidityTFHESelect at h
  split_ifs at h with hsupported
  · obtain rfl := List.mem_singleton.mp h
    intro s args values hargs _
    apply Post.mono (Q := Yields E clear s T.type.fheType
      (if values 0 = 1 then values 1 else values 2)) (E := HostError.IsRefusal)
    · apply Post.bind (checkInitialized_yields hslots (by decide) (hargs 0 _ rfl))
      rintro ⟨_, s₁⟩ ⟨hkeeps₁, hcontrol⟩
      apply Post.bind (checkInitialized_yields hslots htype ((hargs 1 _ rfl).mono hkeeps₁))
      rintro ⟨_, s₂⟩ ⟨hkeeps₂, htrue⟩
      apply Post.bind
        (checkInitialized_yields hslots htype ((hargs 2 _ rfl).mono (hkeeps₁.trans hkeeps₂)))
      rintro ⟨_, s₃⟩ ⟨hkeeps₃, hfalse⟩
      apply (select_yields hslots (hcontrol.mono (hkeeps₂.trans hkeeps₃)) (htrue.mono hkeeps₃)
        hfalse htype).imp
      exact fun r hr => hr.trans ((hkeeps₁.trans hkeeps₂).trans hkeeps₃)
    · intro r hr
      refine ⟨hr.keeps, hr.holds.congr fun hevaluated => ?_⟩
      have hs := hr.keeps.evaluated hevaluated
      exact (meaning_select (adjusted_pos T hT) ((hargs 0 _ rfl).lt hs) ((hargs 1 _ rfl).lt hs)
        ((hargs 2 _ rfl).lt hs)).symm
    · exact fun _ => .inl
  · cases h

theorem fheType_ne {type type' : TypeName} (h : type.isUint = true) (h' : type'.isUint = true)
    (hne : type ≠ type') : type.fheType ≠ type'.fheType := by
  cases type with
  | address => cases h
  | fhe t =>
    cases type' with
    | address => cases h'
    | fhe t' => exact fun heq => hne (congrArg TypeName.fhe heq)

theorem sound_castEuint (hslots : SlotsFree E) {input output : AdjustedFheType}
    (hinput : input ∈ adjustedFheTypes) (houtput : output ∈ adjustedFheTypes)
    (h : f ∈ handleSolidityTFHECustomCastBetweenTwoEuint E input output) : f.Sound E clear := by
  unfold handleSolidityTFHECustomCastBetweenTwoEuint at h
  split_ifs at h with hskip
  · cases h
  · simp only [Bool.or_eq_true, decide_eq_true_eq, Bool.not_eq_true', not_or,
      Bool.not_eq_false] at hskip
    obtain ⟨⟨hne, hinputUint⟩, houtputUint⟩ := hskip
    obtain rfl := List.mem_singleton.mp h
    obtain ⟨-, hinputType, -⟩ := adjusted_uint input hinput hinputUint
    obtain ⟨-, houtputType, hnotBool⟩ := adjusted_uint output houtput houtputUint
    intro s args values hargs hchecked
    have hread : readsUnchecked (.asE output.type) [.encrypted input.type] = true := by
      simpa [readsUnchecked] using hnotBool
    simp only [meaning_cast hnotBool]
    apply (cast_yields hslots ((hargs 0 _ rfl).holds (hchecked hread))
      (uint8To256_subset _ hinputType) houtputType (fheType_ne hinputUint houtputUint hne)).mono
      (fun _ => id)
    exact fun _ => .inl

theorem sound_fromEbool (hslots : SlotsFree E) {T : AdjustedFheType} (hT : T ∈ adjustedFheTypes)
    (huint : T.type.isUint = true) :
    LibFunction.Sound E clear
      { name := .asE T.type
        params := [.encrypted (.fhe .bool)]
        returnType := T.type
        body := fun args => Impl.cast E (args 0) T.type.fheType } := by
  obtain ⟨-, htype, hnotBool⟩ := adjusted_uint T hT huint
  intro s args values hargs hchecked
  have hread : readsUnchecked (.asE T.type) [.encrypted (.fhe .bool)] = true := by
    simpa [readsUnchecked] using hnotBool
  have hne : FheType.bool ≠ T.type.fheType := by
    intro heq
    rw [← heq] at htype
    exact absurd htype (by decide)
  simp only [meaning_cast hnotBool]
  apply (cast_yields hslots ((hargs 0 _ rfl).holds (hchecked hread)) (by decide) htype hne).mono
    (fun _ => id)
  exact fun _ => .inl

/-- `asEbool` is a comparison with zero. -/
theorem sound_asEbool (hslots : SlotsFree E) {T : AdjustedFheType} (hT : T ∈ adjustedFheTypes)
    (hne : .ne ∈ T.supportedOperators) :
    LibFunction.Sound E clear
      { name := .asE (.fhe .bool)
        params := [.encrypted T.type]
        returnType := .fhe .bool
        body := fun args => rightScalarOperator E .ne T.type (args 0) 0 } := by
  obtain ⟨op, hop, hname, hg, hscalar⟩ : ∃ op ∈ ALL_OPERATORS, op.name = .ne ∧
      op.arguments = .binary .fheNe ∧ op.hasScalar = true := by decide
  obtain ⟨ht, -⟩ := accepts_binary hg (accepts_of_supported T hT op hop (hname ▸ hne))
  intro s args values hargs _
  have hword : (0 : Bytes32).toNat = 0 := rfl
  have hyields := rightScalarOperator_yields hslots hop hg hscalar (adjusted_supported T hT) ht
    (hargs 0 _ rfl) hword (Nat.two_pow_pos _)
  rw [hname] at hyields
  apply hyields.mono
  · intro r hr
    refine ⟨hr.keeps, hr.holds.congr fun hevaluated => ?_⟩
    have hlt := (hargs 0 _ rfl).lt (hr.keeps.evaluated hevaluated)
    have hzero : twoOperands T.type.bits (values 0) 0 0 = twoOperands T.type.bits (values 0) 0 1 ↔
        values 0 = 0 := ofNat_eq_zero hlt
    simp only [OperatorName.apply, meaning, ne_eq, toNat_decide, hzero, ite_not]
  · rintro e (hrefusal | ⟨-, hdivision | hdivision, -⟩)
    · exact .inl hrefusal
    · cases hdivision
    · cases hdivision

theorem sound_castEbool (hslots : SlotsFree E) {T : AdjustedFheType} (hT : T ∈ adjustedFheTypes)
    (h : f ∈ handleSolidityTFHECustomCastBetweenEboolAndEuint E T) : f.Sound E clear := by
  have htype := adjusted_supported T hT
  unfold handleSolidityTFHECustomCastBetweenEboolAndEuint at h
  split_ifs at h with huint hne
  · rw [List.contains_iff_mem] at hne
    obtain rfl | h := List.mem_cons.mp h
    · exact sound_fromEbool hslots hT huint
    · obtain rfl := List.mem_singleton.mp h
      exact sound_asEbool hslots hT hne
  · obtain rfl := List.mem_singleton.mp h
    exact sound_fromEbool hslots hT huint
  · cases h

/-- The unary operators are the negations, of which only the first operand is used. -/
theorem unary_operator {op : Operator} (hop : op ∈ ALL_OPERATORS) (hunary : op.isBinary = false)
    (type : TypeName) (values : Nat → Nat) :
    readsUnchecked (.operator op.name) [.encrypted type] = true ∧
      meaning (.operator op.name) [.encrypted type] values =
        op.name.apply fun _ => BitVec.ofNat type.fheType.numBits (values 0) := by
  have hnegations : ∀ op ∈ ALL_OPERATORS, op.isBinary = false →
      op.name = .neg ∨ op.name = .not := by decide
  have hbits : promotedBits [.encrypted type] = type.fheType.numBits := max_zero _
  obtain hname | hname := hnegations op hop hunary
  · rw [hname, meaning, hbits]
    exact ⟨rfl, rfl⟩
  · rw [hname, meaning, hbits]
    exact ⟨rfl, rfl⟩

theorem sound_unary (hslots : SlotsFree E) {T : AdjustedFheType} (hT : T ∈ adjustedFheTypes)
    (h : f ∈ handleSolidityTFHEUnaryOperators E T ALL_OPERATORS) : f.Sound E clear := by
  obtain ⟨op, hop, h⟩ := List.mem_flatMap.mp h
  split_ifs at h with hunary
  · simp only [Bool.and_eq_true, Bool.not_eq_true', List.contains_iff_mem] at hunary
    obtain ⟨g, hg⟩ := (isBinary_eq_false_iff).mp hunary.1
    have ht := accepts_unary hg (accepts_of_supported T hT op hop hunary.2)
    obtain rfl := List.mem_singleton.mp h
    intro s args values hargs hchecked
    obtain ⟨hread, hmeaning⟩ := unary_operator hop hunary.1 T.type values
    simp only [hmeaning]
    apply (unary_yields hslots hop hg ((hargs 0 _ rfl).holds (hchecked hread)) ht).mono
      (fun _ => id)
    exact fun _ => .inl
  · cases h

theorem sound_plaintext (hslots : SlotsFree E) {T : AdjustedFheType} (hT : T ∈ adjustedFheTypes)
    (h : f ∈ handleSolidityTFHEConvertPlaintextAndEinputToRespectiveType E T) :
    f.Sound E clear := by
  obtain rfl := List.mem_singleton.mp h
  intro s args values hargs _
  obtain ⟨hword, hlt⟩ := hargs 0 _ rfl
  rw [adjusted_clearBits T hT] at hlt
  have hmeaning : meaning (.asE T.type) [.clear T.clearMatchingType] values = values 0 := by
    by_cases hbool : T.type = .fhe .bool
    · rw [hbool] at hlt ⊢
      have hlt : values 0 < 2 := hlt
      simp only [meaning]
      split_ifs <;> omega
    · rw [meaning_cast hbool]
      exact Nat.mod_eq_of_lt hlt
  simp only [hmeaning, ← hword]
  apply (trivialEncrypt_yields hslots (args 0) (adjusted_supported T hT)).mono (fun _ => id)
  exact fun _ => .inl

/-- Every function of the library is right. -/
theorem library_sound (hslots : SlotsFree E) (h : f ∈ library E) : f.Sound E clear := by
  simp only [library, generateFHEOperators, List.mem_append, List.mem_flatMap] at h
  rcases h with ((((((⟨L, hL, R, hR, op, hop, h⟩ | ⟨T, hT, op, hop, h⟩) | ⟨T, hT, op, hop, h⟩) |
    ⟨T, hT, h⟩) | ⟨output, houtput, ⟨input, hinput, h⟩ | h⟩) | ⟨T, hT, h⟩) | ⟨T, hT, h⟩)
  · exact sound_encrypted hslots hL hR hop h
  · exact sound_scalar hslots hT hop h
  · exact sound_shift hslots hT hop h
  · exact sound_select hslots hT h
  · exact sound_castEuint hslots hinput houtput h
  · exact sound_castEbool hslots houtput h
  · exact sound_unary hslots hT h
  · exact sound_plaintext hslots hT h

end Generators

end Fhevm.LibrarySolidity
