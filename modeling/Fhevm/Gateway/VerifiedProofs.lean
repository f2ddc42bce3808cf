import Fhevm.Gateway.ProofConsensus

/-!
# Verified proofs

The signatures that the gateway publishes with a verified list of handles are those of the
coprocessors that answered with it, and they are over the request that got the number of the proof.

## Main definitions

* `ProofRequested` — what was requested under a number.
* `DeclaresSigned` — a call publishes a list of handles with its signatures.
* `signatures_of_declares` — whose signatures they are.
-/

namespace Fhevm.Gateway

open Foundation Contract Host

variable {D : GatewayDeployment} {calls past : List (GatewayTx × InputVerificationCall)}
  {s s' : InputVerificationStorage} {zkProofId : Nat}

/-! ## Requests -/

/-- What a request stores. -/
def proofRequest (i : GatewayTx × InputVerificationCall) (_ : InputVerificationStorage) :
    Option ZKProofInput :=
  match i.2 with
  | .verifyProofRequest contractChainId contractAddress userAddress _ _ _ =>
    some ⟨contractChainId, contractAddress, userAddress⟩
  | _ => none

/-- A request for the verification of an input got the number. -/
def ProofRequested (D : GatewayDeployment) (calls : List (GatewayTx × InputVerificationCall))
    (zkProofId : Nat) (input : ZKProofInput) : Prop :=
  (inputVerification D).Issued .init InputVerificationStorage.zkProofIdCounter proofRequest calls
    zkProofId input

/-- Ballots leave the requests alone. -/
theorem zkProofInputs_afterBallot (v : ProofBallot) :
    (s.afterBallot v).zkProofIdCounter = s.zkProofIdCounter ∧
      (s.afterBallot v).zkProofInputs = s.zkProofInputs := by
  unfold InputVerificationStorage.afterBallot
  cases v.topic <;> exact ⟨rfl, rfl⟩

theorem proofRequested_iff {input : ZKProofInput} :
    ProofRequested D calls zkProofId input ↔ 0 < zkProofId ∧
      zkProofId ≤ (inputsAfter D calls).zkProofIdCounter ∧
        (inputsAfter D calls).zkProofInputs zkProofId = input := by
  refine Contract.issued_iff rfl ?_ ?_ calls zkProofId input
  · rintro ⟨tx, call⟩ s input hc hi
    obtain ⟨ev, h⟩ := hc.call_eq
    cases call with
    | verifyProofRequest chainId contractAddress user ciphertext extraData feeCollected =>
      cases hi
      generalize (inputVerification D).step _ s = s' at h ⊢
      simp only [inputVerification, verifyProofRequest, bind_eq_ok, mapError_eq_ok,
        increment_eq_ok] at h
      obtain ⟨_, -, _, -, _, ⟨-, rfl⟩, _, -, h⟩ := h
      cases h
      exact ⟨rfl, rfl⟩
    | verifyProofResponse => cases hi
    | rejectProofResponse => cases hi
    | pause => cases hi
    | unpause => cases hi
  · rintro ⟨tx, call⟩ s hc hi
    obtain ⟨ev, h⟩ := hc.call_eq
    generalize (inputVerification D).step _ s = s' at h ⊢
    cases call with
    | verifyProofRequest => cases hi
    | verifyProofResponse id ctHandles signature extraData =>
      obtain ⟨_, -, hanswered⟩ := verifyProofResponse_ok h
      rw [hanswered.next]
      exact zkProofInputs_afterBallot _
    | rejectProofResponse id extraData =>
      rw [(rejectProofResponse_ok h).next]
      exact zkProofInputs_afterBallot _
    | pause isPauser =>
      simp only [inputVerification, bind_eq_ok] at h
      obtain ⟨_, -, h⟩ := h
      cases h
      exact ⟨rfl, rfl⟩
    | unpause =>
      simp only [inputVerification, bind_eq_ok] at h
      obtain ⟨_, -, h⟩ := h
      cases h
      exact ⟨rfl, rfl⟩

/-! ## Signatures -/

/-- The call publishes the list of handles with the signatures for it. -/
def DeclaresSigned (D : GatewayDeployment) (i : GatewayTx × InputVerificationCall)
    (s : InputVerificationStorage) (zkProofId : Nat) (ctHandles : List Bytes32)
    (signatures : List Bytes) : Prop :=
  ∃ ev s', (inputVerification D).call i s = .ok (ev, s') ∧
    .verifyProofResponse zkProofId ctHandles signatures ∈ ev

theorem isSigner_of_verifyProofResponse {tx : GatewayTx} {ctHandles : List Bytes32}
    {signature extraData : Bytes} {ev : List InputVerificationEvent}
    (h : verifyProofResponse D tx zkProofId ctHandles signature extraData s = .ok (ev, s')) :
    ∃ signer, D.recover (s.digest D zkProofId ctHandles extraData) signature = some signer ∧
      tx.config.coprocessors.isSigner signer = true := by
  simp only [verifyProofResponse, GatewayConfigChecks.checkCoprocessorSignerMatchesTxSender,
    bind_eq_ok, mapError_eq_ok, require_eq_ok, recoverSigner_eq_ok, exists_const] at h
  obtain ⟨_, -, _, -, signer, hrecover, ⟨hsigner, -⟩, -⟩ := h
  exact ⟨signer, hrecover, hsigner⟩

/-- A ballot for a list of handles is signed by a coprocessor of its time. -/
theorem signed_of_mem {v : ProofBallot} {digest : Bytes32} (hv : v ∈ proofVotes D calls)
    (ht : v.topic.Verifies zkProofId digest) :
    D.recover digest v.signature = some v.voter ∧
      v.config.coprocessors.isSigner v.voter = true := by
  obtain ⟨⟨tx, call⟩, past, -, hc, hcast⟩ := mem_votes.mp hv
  obtain ⟨ev, h⟩ := hc.call_eq
  cases call with
  | verifyProofResponse id ctHandles signature extraData =>
    obtain ⟨signer, hrecover, rfl⟩ := Option.map_eq_some_iff.mp hcast
    obtain ⟨rfl, rfl⟩ := ht
    obtain ⟨signer', hrecover', hsigner⟩ := isSigner_of_verifyProofResponse h
    obtain rfl := Option.some.inj (hrecover.symm.trans hrecover')
    exact ⟨hrecover, hsigner⟩
  | rejectProofResponse id extraData =>
    cases hcast
    exact ht.elim
  | verifyProofRequest => cases hcast
  | pause => cases hcast
  | unpause => cases hcast

/-- The published signatures are those of the ballots for the digest, whose voters are distinct. -/
theorem signatures_of_declares {tx : GatewayTx} {id : Nat} {ctHandles ctHandles' : List Bytes32}
    {signature extraData : Bytes} {signatures : List Bytes}
    (h : DeclaresSigned D (tx, .verifyProofResponse zkProofId ctHandles signature extraData)
      (inputsAfter D past) id ctHandles' signatures) :
    id = zkProofId ∧ ctHandles' = ctHandles ∧
      (0 < zkProofId ∧ zkProofId ≤ (inputsAfter D past).zkProofIdCounter) ∧
      ∃ ballots : List ProofBallot, ballots ≠ [] ∧ signatures = ballots.map Ballot.signature ∧
        (ballots.map Ballot.voter).Nodup ∧ ∀ v ∈ ballots,
          v ∈ proofVotes D ((tx, .verifyProofResponse zkProofId ctHandles signature extraData) ::
            past) ∧ v.topic.Verifies zkProofId
              ((inputsAfter D past).digest D zkProofId ctHandles extraData) := by
  obtain ⟨ev, s', hcall, hevent⟩ := h
  obtain ⟨signer, hrecover, hanswered⟩ := verifyProofResponse_ok hcall
  obtain ⟨hcounter, hzero⟩ := hanswered.issued
  have hlist : id = zkProofId ∧ ctHandles' = ctHandles ∧ signatures =
      s'.zkProofSignatures zkProofId ((inputsAfter D past).digest D zkProofId ctHandles
        extraData) := by
    simp only [inputVerification, verifyProofResponse, bind_eq_ok] at hcall
    obtain ⟨_, -, _, -, _, -, _, -, _, -, hcall⟩ := hcall
    split_ifs at hcall
    · cases hcall
      simpa using hevent
    · cases hcall
      simp at hevent
  obtain ⟨rfl, rfl, hsignatures⟩ := hlist
  refine ⟨rfl, rfl, ⟨Nat.pos_of_ne_zero hzero, hcounter⟩, ?_⟩
  rw [← step_of_ok hcall, ← exec_cons, signatures_inputsAfter] at hsignatures
  refine ⟨_, ?_, hsignatures, ?_, fun v hv => ?_⟩
  · intro hnil
    have hcast : proofVote D (tx, .verifyProofResponse id ctHandles' signature extraData)
        (inputsAfter D past) = some _ := Option.map_eq_some_iff.mpr ⟨signer, hrecover, rfl⟩
    have hmem := mem_votes.mpr ⟨_, past, Ran.head _ _, ⟨_, hcall⟩, hcast⟩
    exact List.filter_eq_nil_iff.mp hnil _ hmem (decide_eq_true ⟨rfl, rfl⟩)
  · have hvoters := @proofVoters_nodup D
      ((tx, .verifyProofResponse id ctHandles' signature extraData) :: past) id
    refine hvoters.sublist (List.Sublist.map _ (List.monotone_filter_right _ fun v hv => ?_))
    have hverifies : v.topic.Verifies id _ := of_decide_eq_true hv
    apply decide_eq_true
    cases ht : v.topic with
    | verified => exact (ht ▸ hverifies).1
    | rejected => exact (ht ▸ hverifies).elim
  · obtain ⟨hmem, hverifies⟩ := List.mem_filter.mp hv
    exact ⟨hmem, of_decide_eq_true hverifies⟩

end Fhevm.Gateway
