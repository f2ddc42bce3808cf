import Fhevm.Host.HostChain

/-!
# One handle, one meaning

The packed descriptions of operations have no separators, but two of the same length
begin with different operator bytes or have the same layout. So a description
determines the operation, and as long as the truncated hash has no collision so does
the handle.

## Main definitions

* `ExecutorCall.operation` — an operation with the seed that it draws, if any.
* `TruncatedHashDiffers` — the hash has no collision on two descriptions.
* `Decodes` — what the contracts read off a handle.
-/

namespace Fhevm.Host

open Foundation FHEVMExecutor

/-! ## Packed fields -/

@[simp] theorem length_addressBytes (a : Address) : (addressBytes a).length = 20 :=
  BigEndian.length_encode _ _

@[simp] theorem length_seedBytes (seed : BitVec 128) : (seedBytes seed).length = 16 :=
  BigEndian.length_encode _ _

@[simp] theorem length_opByte (op : Operators) : (opByte op).length = 1 := rfl

@[simp] theorem length_typeByte (type : FheType) : (typeByte type).length = 1 := rfl

@[simp] theorem length_chainBytes (D : Deployment) : (chainBytes D).length = 52 := by
  simp [chainBytes]

theorem seedBytes_injective : Function.Injective seedBytes := by
  intro x y h
  have hlt : ∀ z : BitVec 128, z.toNat < 256 ^ 16 := fun z => z.isLt.trans_eq (by norm_num)
  exact BitVec.eq_of_toNat_eq (BigEndian.encode_injective (hlt x) (hlt y) h)

theorem typeByte_injective : Function.Injective typeByte := by
  intro s t h
  have hbyte := congrArg UInt8.toNat (List.singleton_inj.mp h)
  have hs := s.toNat_lt
  have ht := t.toNat_lt
  rw [UInt8.toNat_ofNat', UInt8.toNat_ofNat', Nat.mod_eq_of_lt (by omega),
    Nat.mod_eq_of_lt (by omega)] at hbyte
  exact FheType.toNat_injective hbyte

theorem opByte_injective : Function.Injective opByte := by
  intro a b h
  cases a <;> cases b <;> first | rfl | exact absurd h (by decide)

theorem toOperators_injective : Function.Injective BinaryOperator.toOperators := by
  intro a b h
  cases a <;> cases b <;> first | rfl | exact absurd h (by decide)

theorem unaryToOperators_injective : Function.Injective UnaryOperator.toOperators := by
  intro a b h
  cases a <;> cases b <;> first | rfl | exact absurd h (by decide)

/-! ## Descriptions -/

/-- An operation with the seed that it draws. -/
def ExecutorCall.operation (seed : BitVec 128) (call : ExecutorCall) :
    ExecutorCall × Option (BitVec 128) :=
  match call with
  | .fheRand _ | .fheRandBounded _ _ => (call, some seed)
  | _ => (call, none)

@[simp] theorem operation_fst (call : ExecutorCall) (seed : BitVec 128) :
    (call.operation seed).1 = call := by
  cases call <;> rfl

/-- A description determines the operation. The lengths of the layouts are 118, 85, 149, 18, 50,
and 86 for casts and trivial encryptions, which differ in the operator byte. -/
theorem operation_of_preimage {D : Deployment} {call call' : ExecutorCall} {seed seed' : BitVec 128}
    (hcall : call.isInput = false) (hcall' : call'.isInput = false)
    (h : call.preimage D seed = call'.preimage D seed') :
    call.operation seed = call'.operation seed' := by
  have hlength := congrArg List.length h
  cases call with
  | verifyInput inputHandle userAddress inputProof inputType => cases hcall
  | binary op lhs rhs scalarByte =>
    cases call' with
    | binary op' lhs' rhs' scalarByte' =>
      simp only [ExecutorCall.preimage] at h
      obtain ⟨h, -⟩ := List.append_inj h (by simp)
      obtain ⟨h, hscalar⟩ := List.append_inj h (by simp)
      obtain ⟨h, hrhs⟩ := List.append_inj h (by simp)
      obtain ⟨hop, hlhs⟩ := List.append_inj h (by simp)
      cases toOperators_injective (opByte_injective hop)
      cases wordBytes_injective hlhs
      cases wordBytes_injective hrhs
      cases List.singleton_inj.mp hscalar
      rfl
    | verifyInput inputHandle userAddress inputProof inputType => cases hcall'
    | _ => simp [ExecutorCall.preimage] at hlength
  | unary op ct =>
    cases call' with
    | unary op' ct' =>
      simp only [ExecutorCall.preimage] at h
      obtain ⟨h, -⟩ := List.append_inj h (by simp)
      obtain ⟨hop, hct⟩ := List.append_inj h (by simp)
      cases unaryToOperators_injective (opByte_injective hop)
      cases wordBytes_injective hct
      rfl
    | verifyInput inputHandle userAddress inputProof inputType => cases hcall'
    | _ => simp [ExecutorCall.preimage] at hlength
  | fheIfThenElse control ifTrue ifFalse =>
    cases call' with
    | fheIfThenElse control' ifTrue' ifFalse' =>
      simp only [ExecutorCall.preimage] at h
      obtain ⟨h, -⟩ := List.append_inj h (by simp)
      obtain ⟨h, hfalse⟩ := List.append_inj h (by simp)
      obtain ⟨h, htrue⟩ := List.append_inj h (by simp)
      obtain ⟨-, hcontrol⟩ := List.append_inj h (by simp)
      cases wordBytes_injective hcontrol
      cases wordBytes_injective htrue
      cases wordBytes_injective hfalse
      rfl
    | verifyInput inputHandle userAddress inputProof inputType => cases hcall'
    | _ => simp [ExecutorCall.preimage] at hlength
  | fheRand randType =>
    cases call' with
    | fheRand randType' =>
      simp only [ExecutorCall.preimage] at h
      obtain ⟨h, hseed⟩ := List.append_inj h (by simp)
      obtain ⟨-, htype⟩ := List.append_inj h (by simp)
      cases typeByte_injective htype
      cases seedBytes_injective hseed
      rfl
    | verifyInput inputHandle userAddress inputProof inputType => cases hcall'
    | _ => simp [ExecutorCall.preimage] at hlength
  | fheRandBounded upperBound randType =>
    cases call' with
    | fheRandBounded upperBound' randType' =>
      simp only [ExecutorCall.preimage] at h
      obtain ⟨h, hseed⟩ := List.append_inj h (by simp)
      obtain ⟨h, htype⟩ := List.append_inj h (by simp)
      obtain ⟨-, hbound⟩ := List.append_inj h (by simp)
      cases wordBytes_injective hbound
      cases typeByte_injective htype
      cases seedBytes_injective hseed
      rfl
    | verifyInput inputHandle userAddress inputProof inputType => cases hcall'
    | _ => simp [ExecutorCall.preimage] at hlength
  | cast ct toType =>
    cases call' with
    | cast ct' toType' =>
      simp only [ExecutorCall.preimage] at h
      obtain ⟨h, -⟩ := List.append_inj h (by simp)
      obtain ⟨h, htype⟩ := List.append_inj h (by simp)
      obtain ⟨-, hct⟩ := List.append_inj h (by simp)
      cases wordBytes_injective hct
      cases typeByte_injective htype
      rfl
    | trivialEncrypt pt' toType' =>
      simp only [ExecutorCall.preimage, List.append_assoc] at h
      exact absurd (opByte_injective (List.append_inj h rfl).1) (by decide)
    | verifyInput inputHandle userAddress inputProof inputType => cases hcall'
    | _ => simp [ExecutorCall.preimage] at hlength
  | trivialEncrypt pt toType =>
    cases call' with
    | trivialEncrypt pt' toType' =>
      simp only [ExecutorCall.preimage] at h
      obtain ⟨h, -⟩ := List.append_inj h (by simp)
      obtain ⟨h, htype⟩ := List.append_inj h (by simp)
      obtain ⟨-, hpt⟩ := List.append_inj h (by simp)
      cases wordBytes_injective hpt
      cases typeByte_injective htype
      rfl
    | cast ct' toType' =>
      simp only [ExecutorCall.preimage, List.append_assoc] at h
      exact absurd (opByte_injective (List.append_inj h rfl).1) (by decide)
    | verifyInput inputHandle userAddress inputProof inputType => cases hcall'
    | _ => simp [ExecutorCall.preimage] at hlength

/-! ## Handles -/

/-- The 21 bytes of the hash that a handle keeps. -/
def prehandleHash (D : Deployment) (preimage : Bytes) : BitVec 168 :=
  (D.keccak256 preimage).extractLsb' 88 168

/-- The truncated hash has no collision on the descriptions. -/
def TruncatedHashDiffers (D : Deployment) (preimage preimage' : Bytes) : Prop :=
  prehandleHash D preimage = prehandleHash D preimage' → preimage = preimage'

/-- All contracts read the same off a handle: its type, the chain it is of, and the index byte of
computed handles. -/
structure Decodes (D : Deployment) (handle : Bytes32) (resultType : FheType) : Prop where
  typeOf_eq : typeOf handle = some resultType
  extractFheType_eq : extractFheType handle = some resultType
  extractChainId_eq : extractChainId handle = D.chainid
  recoveredChainId_eq : (recoveredChainId handle).setWidth 256 = D.chainid
  indexHandle_eq : indexHandle handle = 0xff

theorem handleOf_hash (D : Deployment) (preimage : Bytes) (type : FheType) :
    (handleOf D preimage type).extractLsb' 88 168 = prehandleHash D preimage :=
  hash_appendMetadataToPrehandle _ _ _

theorem decodes_handleOf {D : Deployment} (hchain : D.chainid.toNat < 2 ^ 64) (preimage : Bytes)
    (type : FheType) : Decodes D (handleOf D preimage type) type := by
  have hid : ((handleOf D preimage type).extractLsb' 16 64).setWidth 256 = D.chainid := by
    rw [handleOf, chainId_appendMetadataToPrehandle]
    apply BitVec.eq_of_toNat_eq
    simp only [BitVec.toNat_setWidth]
    rw [Nat.mod_eq_of_lt hchain, Nat.mod_eq_of_lt (hchain.trans (by norm_num))]
  refine ⟨?_, ?_, ?_, ?_, ?_⟩
  · exact typeOf_appendMetadataToPrehandle _ _ _
  · rw [extractFheType_eq_typeOf]
    exact typeOf_appendMetadataToPrehandle _ _ _
  · rw [extractChainId_eq, hid]
  · rw [recoveredChainId_eq, hid]
  · rw [indexHandle_eq, handleOf, index_appendMetadataToPrehandle]
    rfl

/-! ## Pairs of operations -/

section Pairs

variable {D : Deployment} {V : SignatureScheme} {ctx ctx' : Context} {s s₁ s' s₁' : HostState}
  {call call' : ExecutorCall} {result : Bytes32} {event event' : TfheEvent}

/-- The result of an operation. -/
theorem result_eq_handleOf (hcall : call.isInput = false)
    (h : executorCall D V ctx s call = .ok ((result, event), s₁)) :
    ∃ type, call.resultType = some type ∧
      result = handleOf D (call.preimage D (seedOf D ctx s.counterRand)) type := by
  obtain ⟨-, -, c, hc, hperforms⟩ := executorCall_ok hcall h
  simp only [computation, Option.bind_eq_bind, Option.bind_eq_some_iff] at hc
  obtain ⟨type, htype, cost, -, heq⟩ := hc
  cases heq
  exact ⟨type, htype, hperforms.result_eq⟩

end Pairs

/-- Two successful operations of a deployment with the same result are the same operation on the
same operands, with the same scalar flag, type and bound, and with the same seed if they
draw one; so they have the same value however operations are given values. A result reads
back as it was built, and no accepted input has its index. -/
theorem one_meaning (D : Deployment) (V : SignatureScheme) (hchain : D.chainid.toNat < 2 ^ 64)
    (ctx ctx' : Context) (s s₁ s' s₁' : HostState) (call call' : ExecutorCall)
    (result : Bytes32) (event event' : TfheEvent) (hcall : call.isInput = false)
    (hcall' : call'.isInput = false)
    (hdiffer : TruncatedHashDiffers D (call.preimage D (seedOf D ctx s.counterRand))
      (call'.preimage D (seedOf D ctx' s'.counterRand)))
    (h : executorCall D V ctx s call = .ok ((result, event), s₁))
    (h' : executorCall D V ctx' s' call' = .ok ((result, event'), s₁')) :
    call.operation (seedOf D ctx s.counterRand) = call'.operation (seedOf D ctx' s'.counterRand) ∧
      (∀ clearValue : ExecutorCall × Option (BitVec 128) → Nat,
        clearValue (call.operation (seedOf D ctx s.counterRand)) =
          clearValue (call'.operation (seedOf D ctx' s'.counterRand))) ∧
      (∃ type, call.resultType = some type ∧ Decodes D result type) ∧
      ∀ context inputHandle inputProof verifier verifier' accepted,
        Host.verifyInput D V context inputHandle inputProof verifier = .ok (accepted, verifier') →
          indexHandle accepted ≠ indexHandle result := by
  obtain ⟨type, htype, hresult⟩ := result_eq_handleOf hcall h
  obtain ⟨type', htype', hresult'⟩ := result_eq_handleOf hcall' h'
  have hdecodes : Decodes D result type := hresult ▸ decodes_handleOf hchain _ _
  have hsame := operation_of_preimage hcall hcall' (hdiffer (by
    rw [← handleOf_hash D _ type, ← handleOf_hash D _ type', ← hresult, ← hresult']))
  refine ⟨hsame, fun clearValue => congrArg clearValue hsame, ⟨type, htype, hdecodes⟩, ?_⟩
  · intro context inputHandle inputProof verifier verifier' accepted hverify heq
    obtain ⟨rfl, -, hindex⟩ := verifyInput_result hverify
    rw [heq, hdecodes.indexHandle_eq] at hindex
    exact absurd hindex (by decide)

/-- Two accounts that encrypt 5 get the same handle. -/
theorem encryptions_of_five : ∃ result,
    (∃ event s₁, executorCall sampleConfig.deployment sampleConfig.signatures (sampleContext 10)
      sampleConfig.init (.trivialEncrypt 5 .uint8) = .ok ((result, event), s₁)) ∧
      ∃ type, (ExecutorCall.trivialEncrypt 5 .uint8).resultType = some type ∧
        Decodes sampleConfig.deployment result type := by
  have hok : ∀ account, ∃ s₁, executorCall sampleConfig.deployment sampleConfig.signatures
      (sampleContext account) sampleConfig.init (.trivialEncrypt 5 .uint8) =
        .ok ((handleOf sampleConfig.deployment ((ExecutorCall.trivialEncrypt 5 .uint8).preimage
          sampleConfig.deployment 0) .uint8, .trivialEncrypt account 5 .uint8
            (handleOf sampleConfig.deployment ((ExecutorCall.trivialEncrypt 5 .uint8).preimage
              sampleConfig.deployment 0) .uint8)), s₁) := fun account => ⟨_, rfl⟩
  obtain ⟨s₁, h₁⟩ := hok 10
  obtain ⟨s₂, h₂⟩ := hok 11
  exact ⟨_, ⟨_, _, h₁⟩, (one_meaning sampleConfig.deployment sampleConfig.signatures (by decide)
    (sampleContext 10) (sampleContext 11) sampleConfig.init s₁ sampleConfig.init s₂
    (.trivialEncrypt 5 .uint8) (.trivialEncrypt 5 .uint8) _ _ _ rfl rfl (fun _ => rfl) h₁ h₂).2.2.1⟩

end Fhevm.Host
