import Fhevm.Gateway.KMSBallots
import Fhevm.Gateway.LaterStates
import Fhevm.KmsConnector.Retrieval
import Fhevm.KmsConnector.TxSender

/-!
# What becomes of the rows of responses

The row of a response is removed exactly if its sending is decided. A node that has signed is
answered so in all later states of the gateway. The other errors of the contracts can be lifted by a
later state, and the row is removed all the same.

## Main definitions

* `RefusedWith`, `Accepts` — what the contracts make of a response.
* `Forwards` — what becomes of the row.
* `NotLost` — a response that can be accepted later stays in the database.
-/

namespace Fhevm.KmsConnector

open Foundation Contract Gateway Host

/-! ## Errors of the contracts -/

/-- The signer that has signed for the request already. -/
def decryptionSignedBy : DecryptionError → Option Address
  | .kmsNodeAlreadySigned _ signer => some signer
  | _ => none

def kmsGenerationSignedBy : KMSGenerationError → Option Address
  | .kmsAlreadySignedForPrepKeygen _ signer => some signer
  | .kmsAlreadySignedForKeygen _ signer => some signer
  | .kmsAlreadySignedForCrsgen _ signer => some signer
  | _ => none

def ContractError.signedBy : ContractError → Option Address
  | .decryption e => decryptionSignedBy e
  | .kmsGeneration e => kmsGenerationSignedBy e
  | .gatewayConfig _ => none

theorem signedBy_payloadOf {err : GatewayError} {e : ContractError} {signer : Address}
    (he : (payloadOf err).contractError = some e) (hs : e.signedBy = some signer) :
    (∃ e', err = .decryption e' ∧ decryptionSignedBy e' = some signer) ∨
      ∃ e', err = .kms e' ∧ kmsGenerationSignedBy e' = some signer := by
  unfold payloadOf at he
  split at he
  · cases he
  · cases he
    exact .inl ⟨_, rfl, hs⟩
  · cases he
  · cases he
    exact .inr ⟨_, rfl, hs⟩
  · cases he
    cases hs
  · cases he

/-! ## Responses that the contracts meet -/

section Responses

variable (G : GatewayChain) (g : GatewayState)

/-- The contracts accept the response. -/
def Accepts (sender : Address) (kind : KmsResponseKind) : Prop :=
  (gateway G).Commits (sender, kind.call) g

/-- The contracts answer the response with an error that the sender decodes. -/
def RefusedWith (sender : Address) (kind : KmsResponseKind) (e : ContractError) : Prop :=
  ∃ err, (gateway G).call (sender, kind.call) g = .error err ∧
    (payloadOf err).contractError = some e

/-- An error of the contracts with which the attempt is answered is the one that they answer. -/
def Attempt.Meets (a : Attempt) (sender : Address) (kind : KmsResponseKind) : Prop :=
  ∀ e, a.Rejected e → RefusedWith G g sender kind e

/-- The digest that the response has to sign. -/
def KmsResponseKind.digest : KmsResponseKind → Bytes32
  | .publicDecryption decryptionId decryptedResult _ extraData =>
    g.decryption.publicDigest G.toGatewayDeployment decryptionId.toNat decryptedResult extraData
  | .userDecryption decryptionId userDecryptedShares _ extraData =>
    g.decryption.userDigest G.toGatewayDeployment decryptionId.toNat userDecryptedShares extraData
  | .prepKeygen prepKeygenId signature =>
    (KMSGenerationCall.prepKeygenResponse prepKeygenId.toNat signature).digest G.kmsEip712 g.kms
  | .keygen keyId keyDigests signature =>
    (KMSGenerationCall.keygenResponse keyId.toNat (keyDigests.map KeyDigestDbItem.keyDigest)
      signature).digest G.kmsEip712 g.kms
  | .crsgen crsId crsDigest signature =>
    (KMSGenerationCall.crsgenResponse crsId.toNat crsDigest signature).digest G.kmsEip712 g.kms

def KmsResponseKind.signature : KmsResponseKind → Bytes
  | .publicDecryption _ _ signature _ => signature
  | .userDecryption _ _ signature _ => signature
  | .prepKeygen _ signature => signature
  | .keygen _ _ signature => signature
  | .crsgen _ _ signature => signature

/-- The signer has signed for the request that the response answers. -/
def HasSigned (signer : Address) : KmsResponseKind → Bool
  | .publicDecryption decryptionId _ _ _ =>
    g.decryption.kmsNodeAlreadySigned decryptionId.toNat signer
  | .userDecryption decryptionId _ _ _ =>
    g.decryption.kmsNodeAlreadySigned decryptionId.toNat signer
  | .prepKeygen prepKeygenId _ => g.kms.kmsHasSignedForResponse prepKeygenId.toNat signer
  | .keygen keyId _ _ => g.kms.kmsHasSignedForResponse keyId.toNat signer
  | .crsgen crsId _ _ => g.kms.kmsHasSignedForResponse crsId.toNat signer

/-- The id of the response is not above the counter of its kind. -/
def Counted : KmsResponseKind → Prop
  | .publicDecryption decryptionId _ _ _ =>
    decryptionId.toNat ≤ g.decryption.publicDecryptionCounter
  | .userDecryption decryptionId _ _ _ => decryptionId.toNat ≤ g.decryption.userDecryptionCounter
  | .prepKeygen prepKeygenId _ => prepKeygenId.toNat ≤ g.kms.prepKeygenCounter
  | .keygen keyId _ _ => keyId.toNat ≤ g.kms.keyCounter
  | .crsgen crsId _ _ => crsId.toNat ≤ g.kms.crsCounter

/-- The id of a key is above those of the preparations. The ids of both start so far apart that it
takes as many requests as there are ids of a kind to make it wrong. -/
def KeyIdApart : KmsResponseKind → Prop
  | .keygen keyId _ _ => g.kms.prepKeygenCounter < keyId.toNat
  | _ => True

end Responses

section Refused

variable {G : GatewayChain} {g : GatewayState} {sender signer : Address}

theorem not_signedBy_check {α : Type} {x : Except GatewayConfigChecks.Error α}
    {e : DecryptionError} (h : (x.mapError fun e => .shared (.check e)) = .error e) :
    decryptionSignedBy e = none := by
  obtain ⟨_, -, rfl⟩ := mapError_eq_error.mp h
  rfl

theorem signed_of_validate {tx : GatewayTx} {id : ℕ} {digest : Bytes32} {signature : Bytes}
    {s : DecryptionStorage} {e : DecryptionError}
    (h : validateDecryptionResponseEIP712Signature G.toGatewayDeployment tx id digest signature s =
      .error e) (hs : decryptionSignedBy e = some signer) :
    G.recover digest signature = some signer ∧ s.kmsNodeAlreadySigned id signer = true := by
  simp only [validateDecryptionResponseEIP712Signature, bind_eq_error, mapError_eq_ok,
    recoverSigner_eq_ok, require_eq_error] at h
  obtain h | ⟨signer', hrecover, h | ⟨_, -, ⟨hsigned, rfl⟩ | ⟨_, -, h⟩⟩⟩ := h
  · obtain ⟨_, -, rfl⟩ := mapError_eq_error.mp h
    cases hs
  · rw [not_signedBy_check h] at hs
    cases hs
  · cases hs
    exact ⟨hrecover, by simpa using hsigned⟩
  · cases h

theorem signed_of_publicDecryption {tx : GatewayTx} {id : ℕ} {result signature extraData : Bytes}
    {s : DecryptionStorage} {e : DecryptionError}
    (h : publicDecryptionResponse G.toGatewayDeployment tx id result signature extraData s =
      .error e) (hs : decryptionSignedBy e = some signer) :
    id ≤ s.publicDecryptionCounter ∧
      G.recover (s.publicDigest G.toGatewayDeployment id result extraData) signature =
        some signer ∧ s.kmsNodeAlreadySigned id signer = true := by
  simp only [publicDecryptionResponse, bind_eq_error, require_eq_error, require_eq_ok] at h
  obtain h | ⟨_, -, ⟨-, rfl⟩ | ⟨_, hid, h | ⟨_, -, h⟩⟩⟩ := h
  · rw [not_signedBy_check h] at hs
    cases hs
  · cases hs
  · exact ⟨by omega, signed_of_validate h hs⟩
  · split_ifs at h <;> cases h

theorem signed_of_userDecryption {tx : GatewayTx} {id : ℕ} {share signature extraData : Bytes}
    {s : DecryptionStorage} {e : DecryptionError}
    (h : userDecryptionResponse G.toGatewayDeployment tx id share signature extraData s =
      .error e) (hs : decryptionSignedBy e = some signer) :
    id ≤ s.userDecryptionCounter ∧
      G.recover (s.userDigest G.toGatewayDeployment id share extraData) signature =
        some signer ∧ s.kmsNodeAlreadySigned id signer = true := by
  simp only [userDecryptionResponse, bind_eq_error, require_eq_error, require_eq_ok] at h
  obtain h | ⟨_, -, ⟨-, rfl⟩ | ⟨_, hid, h | ⟨_, -, h⟩⟩⟩ := h
  · rw [not_signedBy_check h] at hs
    cases hs
  · cases hs
  · exact ⟨by omega, signed_of_validate h hs⟩
  · split_ifs at h <;> cases h

theorem signed_of_respond {E : Eip712} {msg : Msg} {requestId counter : ℕ}
    {notRequested : ℕ → KMSGenerationError} {digest : Bytes32} {signature : Bytes}
    {alreadySigned : ℕ → Address → KMSGenerationError} {response : KMSGenerationEvent}
    {activate : KMSGenerationStorage → List KMSGenerationEvent × KMSGenerationStorage}
    {s : KMSGenerationStorage} {e : KMSGenerationError}
    (h : respond E msg requestId counter notRequested digest signature alreadySigned response
      activate s = .error e)
    (hs : kmsGenerationSignedBy e = some signer)
    (hnot : kmsGenerationSignedBy (notRequested requestId) = none)
    (hsigned : ∀ a, kmsGenerationSignedBy (alreadySigned requestId a) = some a) :
    requestId ≤ counter ∧ E.recover digest signature = some signer ∧
      s.kmsHasSignedForResponse requestId signer = true := by
  simp only [respond, onlyKmsTxSender, storeResponse, bind_eq_error, require_eq_error,
    require_eq_ok] at h
  obtain ⟨-, rfl⟩ | ⟨_, -, ⟨-, rfl⟩ | ⟨_, hid, (h | ⟨a, ha, ⟨hmarked, rfl⟩ | ⟨_, -, h⟩⟩) |
    ⟨_, -, h⟩⟩⟩ := h
  · cases hs
  · rw [hnot] at hs
    cases hs
  · unfold validateEIP712Signature at h
    split at h
    · cases h
      cases hs
    · simp only [bind_eq_error, require_eq_error] at h
      obtain ⟨-, rfl⟩ | ⟨_, -, ⟨-, rfl⟩ | ⟨_, -, h⟩⟩ := h <;> first | cases hs | cases h
  · obtain rfl : a = signer := Option.some.inj ((hsigned a).symm.trans hs)
    exact ⟨by omega, (validateEIP712Signature_ok ha).1, by simpa using hmarked⟩
  · cases h
  · split_ifs at h <;> cases h

theorem signed_of_kmsResponse {E : Eip712} {msg : Msg} {c : KMSGenerationCall} {kind : RequestKind}
    {id : ℕ} {signature : Bytes} {s : KMSGenerationStorage} {e : KMSGenerationError}
    (hc : c.response = some (kind, id, signature))
    (h : (kmsGeneration E).call (msg, c) s = .error e)
    (hs : kmsGenerationSignedBy e = some signer) :
    id ≤ kind.counter s ∧ E.recover (c.digest E s) signature = some signer ∧
      s.kmsHasSignedForResponse id signer = true := by
  cases c <;> cases hc
  all_goals
    simp only [kmsGeneration, prepKeygenResponse, keygenResponse, crsgenResponse] at h
    exact signed_of_respond h hs rfl fun _ => rfl

/-- A node is told that it has signed only if it has, for a request that was made. -/
theorem signed_of_refused {kind : KmsResponseKind} {e : ContractError}
    (h : RefusedWith G g sender kind e) (hs : e.signedBy = some signer) :
    Counted g kind ∧ G.recover (kind.digest G g) kind.signature = some signer ∧
      HasSigned g signer kind = true := by
  obtain ⟨err, hcall, herr⟩ := h
  have hpart := signedBy_payloadOf herr hs
  cases kind with
  | publicDecryption decryptionId result signature extraData =>
    obtain ⟨e', he', rfl⟩ := onPart_eq_error.mp hcall
    obtain ⟨_, heq, hs'⟩ | ⟨_, heq, -⟩ := hpart <;> cases heq
    exact signed_of_publicDecryption he' hs'
  | userDecryption decryptionId shares signature extraData =>
    obtain ⟨e', he', rfl⟩ := onPart_eq_error.mp hcall
    obtain ⟨_, heq, hs'⟩ | ⟨_, heq, -⟩ := hpart <;> cases heq
    exact signed_of_userDecryption he' hs'
  | prepKeygen prepKeygenId signature =>
    obtain ⟨e', he', rfl⟩ := onPart_eq_error.mp hcall
    obtain ⟨_, heq, -⟩ | ⟨_, heq, hs'⟩ := hpart <;> cases heq
    exact signed_of_kmsResponse rfl he' hs'
  | keygen keyId keyDigests signature =>
    obtain ⟨e', he', rfl⟩ := onPart_eq_error.mp hcall
    obtain ⟨_, heq, -⟩ | ⟨_, heq, hs'⟩ := hpart <;> cases heq
    exact signed_of_kmsResponse rfl he' hs'
  | crsgen crsId crsDigest signature =>
    obtain ⟨e', he', rfl⟩ := onPart_eq_error.mp hcall
    obtain ⟨_, heq, -⟩ | ⟨_, heq, hs'⟩ := hpart <;> cases heq
    exact signed_of_kmsResponse rfl he' hs'

/-- A response is accepted from a signer that has not signed. -/
theorem fresh_of_accepts {kind : KmsResponseKind} (h : Accepts G g sender kind) :
    ∃ signer, G.recover (kind.digest G g) kind.signature = some signer ∧
      HasSigned g signer kind = false := by
  obtain ⟨⟨ev, g'⟩, hcall⟩ := h
  have hkms : ∀ {msg : Msg} {c : KMSGenerationCall} {k : RequestKind} {id : ℕ} {signature : Bytes}
      {ev' : List KMSGenerationEvent} {s' : KMSGenerationStorage},
      c.response = some (k, id, signature) →
      (kmsGeneration G.kmsEip712).call (msg, c) g.kms = .ok (ev', s') →
      ∃ signer, G.recover (c.digest G.kmsEip712 g.kms) signature = some signer ∧
        g.kms.kmsHasSignedForResponse id signer = false := by
    intro msg c k id signature ev' s' hc hok
    obtain ⟨-, signer, ⟨-, hvalid, hfresh⟩, -⟩ := (response_eq_ok hc).mp ⟨ev', hok⟩
    exact ⟨signer, (validateEIP712Signature_ok hvalid).1, hfresh⟩
  cases kind with
  | publicDecryption decryptionId result signature extraData =>
    obtain ⟨ev', s', hok, -, -⟩ := onPart_eq_ok.mp hcall
    obtain ⟨-, signer, hrecover, hr⟩ := publicDecryptionResponse_ok hok
    exact ⟨signer, hrecover, hr.fresh⟩
  | userDecryption decryptionId shares signature extraData =>
    obtain ⟨ev', s', hok, -, -⟩ := onPart_eq_ok.mp hcall
    obtain ⟨-, signer, hrecover, hr⟩ := userDecryptionResponse_ok hok
    exact ⟨signer, hrecover, hr.fresh⟩
  | prepKeygen prepKeygenId signature =>
    obtain ⟨ev', s', hok, -, -⟩ := onPart_eq_ok.mp hcall
    exact hkms rfl hok
  | keygen keyId keyDigests signature =>
    obtain ⟨ev', s', hok, -, -⟩ := onPart_eq_ok.mp hcall
    exact hkms rfl hok
  | crsgen crsId crsDigest signature =>
    obtain ⟨ev', s', hok, -, -⟩ := onPart_eq_ok.mp hcall
    exact hkms rfl hok

end Refused

/-! ## Later states -/

section Later

variable {G : GatewayChain} {owner : Address} {past calls : List (Address × GatewayCall)}
  {kind : KmsResponseKind} {signer : Address}

theorem hasSigned_later (h : past <:+ calls)
    (hs : HasSigned (gatewayAfter G owner past) signer kind = true) :
    HasSigned (gatewayAfter G owner calls) signer kind = true := by
  cases kind with
  | publicDecryption | userDecryption => exact (decryption_kept h).signed _ _ hs
  | prepKeygen | keygen | crsgen => exact (kms_kept h).signed _ _ hs

/-- What a response to a request that was made has to sign stays the same. -/
theorem digest_later (h : past <:+ calls) (hcounted : Counted (gatewayAfter G owner past) kind)
    (hapart : KeyIdApart (gatewayAfter G owner calls) kind) :
    kind.digest G (gatewayAfter G owner calls) = kind.digest G (gatewayAfter G owner past) := by
  cases kind with
  | publicDecryption decryptionId =>
    have hhandles := (decryption_kept h).publicCtHandles decryptionId.toNat hcounted
    simp only [KmsResponseKind.digest, DecryptionStorage.publicDigest, hhandles]
  | userDecryption decryptionId =>
    have hpayload := (decryption_kept h).userDecryptionPayloads decryptionId.toNat hcounted
    simp only [KmsResponseKind.digest, DecryptionStorage.userDigest, hpayload]
  | prepKeygen => rfl
  | keygen keyId =>
    have hpair := (kms_kept h).keygenIdPairs keyId.toNat hcounted hapart
    simp only [KmsResponseKind.digest, KMSGenerationCall.digest, hpair]
  | crsgen crsId =>
    have hlength := (kms_kept h).crsMaxBitLength crsId.toNat hcounted
    simp only [KmsResponseKind.digest, KMSGenerationCall.digest, hlength]

/-- The response of a node that has signed already is accepted in no later state. -/
theorem not_accepts_later {sender sender' : Address} {e : ContractError} (h : past <:+ calls)
    (hrefused : RefusedWith G (gatewayAfter G owner past) sender kind e)
    (hs : e.signedBy = some signer) (hapart : KeyIdApart (gatewayAfter G owner calls) kind) :
    ¬ Accepts G (gatewayAfter G owner calls) sender' kind := by
  intro haccepts
  obtain ⟨hcounted, hrecover, hsigned⟩ := signed_of_refused hrefused hs
  obtain ⟨signer', hrecover', hfresh⟩ := fresh_of_accepts haccepts
  rw [digest_later h hcounted hapart, hrecover] at hrecover'
  obtain rfl : signer = signer' := Option.some.inj hrecover'
  rw [hasSigned_later h hsigned] at hfresh
  cases hfresh

end Later

/-! ## Rows -/

section Rows

variable {D : ConnectorDeployment} {emitted : List GatewayEventKind} {s s' : ConnectorState}
  {key : ResponseKey} {row : ResponseRow}

theorem responses_of_forward {i : ℕ} {attempts : List Attempt} {releaseFails : Bool}
    (h : s.forwardResponse i (sendToGateway attempts) releaseFails = some s') :
    ∃ response, s.sending[i]? = some response ∧
      s'.responses = if releaseFails then s.responses
        else if sendToGateway attempts = .succeeded ∨ sendToGateway attempts = .irrecoverable
          then removeResponse s.responses response.kind.key
          else markResponseAsPending s.responses response.kind.key := by
  obtain ⟨response, hresponse, h⟩ := Option.bind_eq_some_iff.mp h
  obtain rfl := Option.some.inj h
  refine ⟨response, hresponse, ?_⟩
  cases sendToGateway attempts <;> rfl

theorem get?_removeResponse (responses : Responses) (key k : ResponseKey) :
    (removeResponse responses key).get? k = if k = key then none else responses.get? k :=
  (Table.get?_delete_key responses (fun k => decide (k = key)) k).trans (by simp)

theorem get?_markResponseAsPending (responses : Responses) (key k : ResponseKey) :
    (markResponseAsPending responses key).get? k =
      if k = key then (responses.get? k).map fun row => { row with underProcess := false }
      else responses.get? k :=
  (Table.get?_update_key responses (fun k => decide (k = key))
    (fun row => { row with underProcess := false }) (fun _ => rfl) k).trans (by simp)

/-- No other step removes the row of a response. -/
theorem forward_of_removed {input : ConnectorInput} (h : s.step D emitted input = some s')
    (hrow : s.responses.get? key = some row) (hremoved : s'.responses.get? key = none) :
    ∃ i outcome response, input = .forwardResponse i outcome false ∧
      s.sending[i]? = some response ∧ response.kind.key = key ∧
        (outcome = .succeeded ∨ outcome = .irrecoverable) := by
  have hsame : s'.responses ≠ s.responses := by
    intro hsame
    rw [hsame, hrow] at hremoved
    cases hremoved
  cases input with
  | receive emission context insertFails =>
    obtain ⟨_, -, ⟨rfl, -⟩ | ⟨_, -, ⟨_, -, rfl⟩ | ⟨-, rfl⟩⟩⟩ := ConnectorState.receive_cases h
    all_goals exact absurd rfl hsame
  | pickEvents worker table ids replyLost =>
    obtain ⟨_, -, rfl⟩ := ConnectorState.pickEvents_cases h
    exact absurd rfl hsame
  | send i s3 releaseFails =>
    obtain ⟨_, -, rfl | ⟨_, -, rfl⟩⟩ := ConnectorState.send_cases h
    all_goals exact absurd rfl hsame
  | answer i answer releaseFails =>
    obtain ⟨_, -, ⟨_, rfl⟩ | ⟨_, rfl⟩⟩ := ConnectorState.answer_cases h
    all_goals exact absurd rfl hsame
  | publishResponse i insertFails releaseFails =>
    obtain ⟨_, kind, -, -, rfl | ⟨_, responses, -, hpublish, rfl⟩⟩ :=
      ConnectorState.publishResponse_cases h
    · exact absurd rfl hsame
    · obtain ⟨row', -, -, ⟨_, -, -, rfl⟩ | ⟨-, -, rfl⟩⟩ := publishResponse_eq hpublish
      · exact absurd rfl hsame
      · rw [Table.get?_insert, hrow] at hremoved
        cases hremoved
  | pickResponses table ids replyLost =>
    obtain ⟨_, -, rfl⟩ := ConnectorState.pickResponses_cases h
    have hpicked := (Table.get?_update_key s.responses
      (fun k => decide (k.1 = table ∧ k.2 ∈ ids)) (fun row => { row with underProcess := true })
      (fun _ => rfl) key).symm.trans hremoved
    rw [hrow] at hpicked
    split_ifs at hpicked
    all_goals cases hpicked
  | forwardResponse i outcome releaseFails =>
    obtain ⟨response, hresponse, h⟩ := Option.bind_eq_some_iff.mp h
    obtain rfl := Option.some.inj h
    cases releaseFails with
    | true => exact absurd rfl hsame
    | false =>
      cases outcome with
      | succeeded | irrecoverable =>
        have hget := (get?_removeResponse s.responses response.kind.key key).symm.trans hremoved
        split_ifs at hget with hkey
        · exact ⟨i, _, response, rfl, hresponse, hkey.symm, by simp⟩
        · rw [hrow] at hget
          cases hget
      | recoverable | alloyBackendGone =>
        have hget := (get?_markResponseAsPending s.responses response.kind.key key).symm.trans
          hremoved
        rw [hrow] at hget
        split_ifs at hget
        all_goals cases hget
  | stopWorker worker =>
    obtain rfl := Option.some.inj h
    exact absurd rfl hsame
  | stopSender =>
    obtain rfl := Option.some.inj h
    exact absurd rfl hsame

/-- What becomes of the row when the sending of the response ends. -/
structure Forwards (s s' : ConnectorState) (kind : KmsResponseKind) (attempts : List Attempt)
    (releaseFails : Bool) : Prop where
  removed : s'.responses.get? kind.key = none ↔
    s.responses.get? kind.key = none ∨ (releaseFails = false ∧ Decided attempts)
  pending : ∀ row, s.responses.get? kind.key = some row → releaseFails = false →
    ¬ Decided attempts → s'.responses.get? kind.key = some { row with underProcess := false }

theorem forwards {i : ℕ} {attempts : List Attempt} {releaseFails : Bool}
    (h : s.forwardResponse i (sendToGateway attempts) releaseFails = some s') :
    ∃ response, s.sending[i]? = some response ∧
      Forwards s s' response.kind attempts releaseFails := by
  obtain ⟨response, hresponse, hs'⟩ := responses_of_forward h
  refine ⟨response, hresponse, ?_, ?_⟩
  · rw [hs']
    split_ifs with hfails hdecided
    · simp [hfails]
    · simp [get?_removeResponse, hfails, decided_iff.mp hdecided]
    · simp [get?_markResponseAsPending, mt decided_iff.mpr hdecided]
  · intro row hrow hfails hdecided
    rw [hs', if_neg (by simp [hfails]), if_neg (mt decided_iff.mp hdecided),
      get?_markResponseAsPending, if_pos rfl, hrow]
    rfl

/-- The row of a response is removed by its sender alone, exactly if its attempts come to one that
succeeded or was answered with an error of a contract. After any other error it is pending. If the
answer is that the signer has signed already, no later state of the gateway accepts the response. -/
theorem response_forwarded (D : ConnectorDeployment) (emitted : List GatewayEventKind)
    (G : GatewayChain) (owner : Address) {s s' : ConnectorState} {input : ConnectorInput}
    (h : s.step D emitted input = some s') :
    (∀ key row, s.responses.get? key = some row → s'.responses.get? key = none →
      ∃ i outcome response, input = .forwardResponse i outcome false ∧
        s.sending[i]? = some response ∧ response.kind.key = key ∧
          (outcome = .succeeded ∨ outcome = .irrecoverable)) ∧
    (∀ i attempts releaseFails,
      input = .forwardResponse i (sendToGateway attempts) releaseFails →
        ∃ response, s.sending[i]? = some response ∧
          Forwards s s' response.kind attempts releaseFails) ∧
    ∀ (a : Attempt) kind sender e signer past, a.Meets G (gatewayAfter G owner past) sender kind →
      a.Rejected e → e.signedBy = some signer → ∀ calls, past <:+ calls →
        KeyIdApart (gatewayAfter G owner calls) kind →
          ∀ sender', ¬ Accepts G (gatewayAfter G owner calls) sender' kind := by
  refine ⟨fun key row => forward_of_removed h, ?_, ?_⟩
  · rintro i attempts releaseFails rfl
    exact forwards h
  · intro a kind sender e signer past hmeets hrejected hs calls hlater hapart sender'
    exact not_accepts_later hlater (hmeets e hrejected) hs hapart

end Rows

/-! ## Samples -/

section Samples

def samplePublicResponse : KmsResponseKind :=
  .publicDecryption (BitVec.ofNat 256 (PUBLIC_DECRYPT_COUNTER_BASE + 1)) [7] [50] []

def samplePublicRow : ResponseRow where
  columns := samplePublicResponse.columns
  otlpContext := []
  underProcess := true

/-- The sender has picked the response. -/
def sendingPublicResponse : ConnectorState :=
  { ConnectorState.init with
    responses := Table.insert ⟨[], no_responses⟩ samplePublicRow
    sending := [{ kind := samplePublicResponse, otlpContext := default }] }

/-- An attempt that does not get past the estimation of its gas. -/
def refusedAttempt (payload : ErrorPayload) : Attempt where
  estimateGas := .error (.errorResp payload)
  sendTransactionSync := .error .nullResp

theorem rejected_refusedAttempt {payload : ErrorPayload} {e : ContractError} :
    (refusedAttempt payload).Rejected e ↔ payload.contractError = some e := by
  simp [Attempt.Rejected, refusedAttempt]

theorem decided_refusedAttempt {payload : ErrorPayload} {e : ContractError}
    (h : payload.contractError = some e) : Decided [refusedAttempt payload] :=
  ⟨[], refusedAttempt payload, [], rfl, by simp, .inr ⟨e, rejected_refusedAttempt.mpr h⟩⟩

/-- The node has answered already. -/
def sampleResponded : List (Address × GatewayCall) :=
  (20, samplePublicResponse.call) :: sampleRequested

/-- The error of the decryption contract. -/
def decryptionRefusal (G : GatewayChain) (g : GatewayState) (sender : Address)
    (kind : KmsResponseKind) : Option DecryptionError :=
  match (gateway G).call (sender, kind.call) g with
  | .error (.decryption e) => some e
  | _ => none

section Refusals

variable {G : GatewayChain} {g : GatewayState} {sender : Address} {kind : KmsResponseKind}
  {e : DecryptionError}

theorem refusedWith_of_decryptionRefusal (h : decryptionRefusal G g sender kind = some e)
    (he : (payloadOf (.decryption e)).contractError = some (.decryption e)) :
    RefusedWith G g sender kind (.decryption e) := by
  unfold decryptionRefusal at h
  split at h
  · next e' hcall =>
    obtain rfl : e' = e := Option.some.inj h
    exact ⟨_, hcall, he⟩
  · cases h

theorem meets_refusedAttempt (h : decryptionRefusal G g sender kind = some e)
    (he : (payloadOf (.decryption e)).contractError = some (.decryption e)) :
    (refusedAttempt (payloadOf (.decryption e))).Meets G g sender kind := by
  intro e' hrejected
  obtain rfl : .decryption e = e' :=
    Option.some.inj (he.symm.trans (rejected_refusedAttempt.mp hrejected))
  exact refusedWith_of_decryptionRefusal h he

end Refusals

/-- The calls of the node where it has answered already, where the id is not visible yet, where the
node is not registered yet, and where it can answer. -/
theorem sampleCalls :
    decryptionRefusal sampleChain (gatewayAfter sampleChain 1 sampleResponded) 20
        samplePublicResponse =
      some (.kmsNodeAlreadySigned (PUBLIC_DECRYPT_COUNTER_BASE + 1) 50) ∧
    decryptionRefusal sampleChain (gatewayAfter sampleChain 1 sampleRequested.tail) 20
        samplePublicResponse =
      some (.decryptionNotRequested (PUBLIC_DECRYPT_COUNTER_BASE + 1)) ∧
    decryptionRefusal sampleChain (gatewayAfter sampleChain 1 []) 20 samplePublicResponse =
      some (.shared (.check (.notKmsTxSender 20))) ∧
    ((gateway sampleChain).call (20, samplePublicResponse.call)
      (gatewayAfter sampleChain 1 sampleRequested)).isOk = true := by
  decide +kernel

theorem sampleRequested_accepts :
    Accepts sampleChain (gatewayAfter sampleChain 1 sampleRequested) 20 samplePublicResponse :=
  exists_of_isOk sampleCalls.2.2.2

def signedAttempt : Attempt :=
  refusedAttempt (payloadOf (.decryption (.kmsNodeAlreadySigned (PUBLIC_DECRYPT_COUNTER_BASE + 1) 50)))

/-- A node that has signed sends its response once more. -/
theorem sampleResponse_forwarded : ∃ s', sendingPublicResponse.step sampleConnector []
      (.forwardResponse 0 (sendToGateway [signedAttempt]) false) = some s' ∧
    s'.responses.get? samplePublicResponse.key = none ∧
      ∀ calls, sampleResponded <:+ calls →
        ¬ Accepts sampleChain (gatewayAfter sampleChain 1 calls) 20 samplePublicResponse := by
  obtain ⟨s', hs'⟩ : ∃ s', sendingPublicResponse.step sampleConnector []
      (.forwardResponse 0 (sendToGateway [signedAttempt]) false) = some s' := ⟨_, rfl⟩
  obtain ⟨-, hforwards, hfinal⟩ :=
    response_forwarded sampleConnector [] sampleChain 1 hs'
  refine ⟨s', hs', ?_, fun calls hlater => ?_⟩
  · obtain ⟨response, hresponse, hf⟩ := hforwards 0 [signedAttempt] false rfl
    obtain rfl := Option.some.inj hresponse
    exact hf.removed.mpr (.inr ⟨rfl, decided_refusedAttempt rfl⟩)
  · exact hfinal signedAttempt samplePublicResponse 20 _ 50 sampleResponded
      (meets_refusedAttempt sampleCalls.1 rfl) (rejected_refusedAttempt.mpr rfl) rfl calls
      hlater trivial 20

/-- The row of a response is removed only if an attempt succeeded, or the contracts can no longer
accept it after the further calls. -/
def NotLost (G : GatewayChain) (owner sender : Address) (past calls : List (Address × GatewayCall))
    (kind : KmsResponseKind) : Prop :=
  ∀ (s s' : ConnectorState) i attempts response row, s.sending[i]? = some response →
    response.kind = kind → (∀ a ∈ attempts, a.Meets G (gatewayAfter G owner past) sender kind) →
    s.forwardResponse i (sendToGateway attempts) false = some s' →
    s.responses.get? kind.key = some row → s'.responses.get? kind.key = none →
      (∃ a ∈ attempts, a.Succeeds) ∨
        ∀ sender', ¬ Accepts G (gatewayAfter G owner calls) sender' kind

theorem lost_of_refusal {past : List (Address × GatewayCall)} {e : DecryptionError}
    (h : decryptionRefusal sampleChain (gatewayAfter sampleChain 1 past) 20 samplePublicResponse =
      some e)
    (he : (payloadOf (.decryption e)).contractError = some (.decryption e)) :
    ¬ NotLost sampleChain 1 20 past sampleRequested samplePublicResponse := by
  intro hnot
  have hmeets := meets_refusedAttempt h he
  obtain ⟨s', hs'⟩ : ∃ s', sendingPublicResponse.forwardResponse 0
      (sendToGateway [refusedAttempt (payloadOf (.decryption e))]) false = some s' := ⟨_, rfl⟩
  obtain ⟨response, hresponse, hf⟩ := forwards hs'
  obtain rfl := Option.some.inj hresponse
  have hremoved := hf.removed.mpr (.inr ⟨rfl, decided_refusedAttempt he⟩)
  obtain ⟨a, ha, hsucceeds⟩ | hrefused := hnot sendingPublicResponse s' 0 _ _ samplePublicRow rfl
    rfl (List.forall_mem_singleton.mpr hmeets) hs' (by decide +kernel) hremoved
  · obtain rfl := List.mem_singleton.mp ha
    obtain ⟨⟨gas, hgas⟩, -⟩ := hsucceeds
    cases hgas
  · exact hrefused 20 sampleRequested_accepts

/-- A response is lost for a node that does not show its request yet, and for one that does not show
the registration of its sender yet. -/
theorem sampleResponse_lost :
    ¬ NotLost sampleChain 1 20 sampleRequested.tail sampleRequested samplePublicResponse ∧
      ¬ NotLost sampleChain 1 20 [] sampleRequested samplePublicResponse :=
  ⟨lost_of_refusal sampleCalls.2.1 rfl, lost_of_refusal sampleCalls.2.2.1 rfl⟩

end Samples

end Fhevm.KmsConnector
