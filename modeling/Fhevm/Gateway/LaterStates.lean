import Fhevm.Gateway.Gateway
import Fhevm.Gateway.KMSConsensus
import Fhevm.Gateway.DecryptionConsensus

/-!
# What later states of the gateway keep

The marks of those who have signed are never removed, and what was requested under an id stays so.

## Main definitions

* `DecryptionStorage.Kept`, `KMSGenerationStorage.Kept` — what a storage keeps of an earlier one.
-/

namespace Fhevm.Gateway

open Foundation Contract Host

/-! ## Decryptions -/

structure DecryptionStorage.Kept (s s' : DecryptionStorage) : Prop where
  signed : ∀ id signer, s.kmsNodeAlreadySigned id signer = true →
    s'.kmsNodeAlreadySigned id signer = true
  publicCounter : s.publicDecryptionCounter ≤ s'.publicDecryptionCounter
  userCounter : s.userDecryptionCounter ≤ s'.userDecryptionCounter
  publicCtHandles : ∀ id ≤ s.publicDecryptionCounter, s'.publicCtHandles id = s.publicCtHandles id
  userDecryptionPayloads : ∀ id ≤ s.userDecryptionCounter,
    s'.userDecryptionPayloads id = s.userDecryptionPayloads id

namespace DecryptionStorage.Kept

variable {D : GatewayDeployment} {i : GatewayTx × DecryptionCall} {s s' s'' : DecryptionStorage}
  {ev : List DecryptionEvent}

theorem refl (s : DecryptionStorage) : Kept s s :=
  ⟨fun _ _ h => h, le_rfl, le_rfl, fun _ _ => rfl, fun _ _ => rfl⟩

theorem trans (h : Kept s s') (h' : Kept s' s'') : Kept s s'' where
  signed id signer hs := h'.signed id signer (h.signed id signer hs)
  publicCounter := h.publicCounter.trans h'.publicCounter
  userCounter := h.userCounter.trans h'.userCounter
  publicCtHandles id hid :=
    (h'.publicCtHandles id (hid.trans h.publicCounter)).trans (h.publicCtHandles id hid)
  userDecryptionPayloads id hid :=
    (h'.userDecryptionPayloads id (hid.trans h.userCounter)).trans (h.userDecryptionPayloads id hid)

theorem afterBallot (s : DecryptionStorage) (v : DecryptionBallot) : Kept s (s.afterBallot v) where
  signed id signer hs := by
    rw [DecryptionStorage.afterBallot]
    dsimp only
    rw [update₂_apply]
    split_ifs
    · rfl
    · exact hs
  publicCounter := le_rfl
  userCounter := le_rfl
  publicCtHandles _ _ := rfl
  userDecryptionPayloads _ _ := rfl

/-- A request writes under an id above the counter. -/
theorem of_ok (h : (decryption D).call i s = .ok (ev, s')) : Kept s s' := by
  obtain ⟨v, -, hr⟩ | ⟨-, hother, -⟩ := decryption_ok h
  · rw [hr.next]
    exact afterBallot s v
  · cases hother with
    | publicRequest ctHandles _ _ _ next =>
      subst next
      refine ⟨fun _ _ hs => hs, Nat.le_succ _, le_rfl, fun id hid => ?_, fun _ _ => rfl⟩
      exact Function.update_of_ne (by omega) _ _
    | userRequest r _ _ next =>
      subst next
      refine ⟨fun _ _ hs => hs, le_rfl, Nat.le_succ _, fun _ _ => rfl, fun id hid => ?_⟩
      exact Function.update_of_ne (by omega) _ _
    | pausing paused _ next =>
      subst next
      exact ⟨fun _ _ hs => hs, le_rfl, le_rfl, fun _ _ => rfl, fun _ _ => rfl⟩

end DecryptionStorage.Kept

/-! ## Key generation -/

/-- The pair of a key can only be overwritten once its id is given to a preparation. -/
structure KMSGenerationStorage.Kept (s s' : KMSGenerationStorage) : Prop where
  signed : ∀ id signer, s.kmsHasSignedForResponse id signer = true →
    s'.kmsHasSignedForResponse id signer = true
  prepKeygenCounter : s.prepKeygenCounter ≤ s'.prepKeygenCounter
  keyCounter : s.keyCounter ≤ s'.keyCounter
  crsCounter : s.crsCounter ≤ s'.crsCounter
  keygenIdPairs : ∀ id ≤ s.keyCounter, s'.prepKeygenCounter < id →
    s'.keygenIdPairs id = s.keygenIdPairs id
  crsMaxBitLength : ∀ id ≤ s.crsCounter, s'.crsMaxBitLength id = s.crsMaxBitLength id

namespace KMSGenerationStorage.Kept

variable {E : Eip712} {i : Msg × KMSGenerationCall} {s s' s'' : KMSGenerationStorage}
  {ev : List KMSGenerationEvent}

theorem refl (s : KMSGenerationStorage) : Kept s s :=
  ⟨fun _ _ h => h, le_rfl, le_rfl, le_rfl, fun _ _ _ => rfl, fun _ _ => rfl⟩

theorem trans (h : Kept s s') (h' : Kept s' s'') : Kept s s'' where
  signed id signer hs := h'.signed id signer (h.signed id signer hs)
  prepKeygenCounter := h.prepKeygenCounter.trans h'.prepKeygenCounter
  keyCounter := h.keyCounter.trans h'.keyCounter
  crsCounter := h.crsCounter.trans h'.crsCounter
  keygenIdPairs id hid hprep :=
    (h'.keygenIdPairs id (hid.trans h.keyCounter) hprep).trans
      (h.keygenIdPairs id hid (h'.prepKeygenCounter.trans_lt hprep))
  crsMaxBitLength id hid :=
    (h'.crsMaxBitLength id (hid.trans h.crsCounter)).trans (h.crsMaxBitLength id hid)

theorem afterResponse (E : Eip712) (msg : Msg) (c : KMSGenerationCall) (id : Nat)
    (signer : Address) (s : KMSGenerationStorage) :
    Kept s (Gateway.afterResponse E msg c id signer s) where
  signed id' signer' hs := by
    have hstored : (Gateway.afterResponse E msg c id signer s).kmsHasSignedForResponse =
        (s.stored id (c.digest E s) signer msg.sender).kmsHasSignedForResponse := by
      unfold Gateway.afterResponse
      dsimp only
      split_ifs
      · cases c <;> rfl
      · rfl
    rw [hstored]
    simp only [KMSGenerationStorage.stored, Function.update_apply]
    split_ifs <;> simp_all [Function.update_apply]
  prepKeygenCounter := (counter_afterResponse .prepKeygen).ge
  keyCounter := (counter_afterResponse .keygen).ge
  crsCounter := (counter_afterResponse .crsgen).ge
  keygenIdPairs _ _ _ := congrFun keygenIdPairs_afterResponse _
  crsMaxBitLength _ _ := by
    unfold Gateway.afterResponse
    dsimp only
    split_ifs
    · cases c <;> rfl
    · rfl

theorem of_ok (h : (kmsGeneration E).call i s = .ok (ev, s')) : Kept s s' := by
  obtain ⟨msg, c⟩ := i
  cases committed_of_ok h with
  | keygen =>
    refine ⟨fun _ _ hs => hs, Nat.le_succ _, Nat.le_succ _, le_rfl, fun id hid hprep => ?_,
      fun _ _ => rfl⟩
    have hkey : id ≠ s.keyCounter + 1 := by omega
    have hprep' : id ≠ s.prepKeygenCounter + 1 := Nat.ne_of_gt hprep
    simp [hkey, hprep']
  | crsgenRequest =>
    refine ⟨fun _ _ hs => hs, le_rfl, le_rfl, Nat.le_succ _, fun _ _ _ => rfl, fun id hid => ?_⟩
    exact Function.update_of_ne (by omega) _ _
  | response c kind id signature signer => exact afterResponse E msg c id signer s
  | prssInit => exact refl s
  | keyReshareSameSet => exact ⟨fun _ _ hs => hs, le_rfl, le_rfl, le_rfl, fun _ _ _ => rfl,
      fun _ _ => rfl⟩

end KMSGenerationStorage.Kept

/-! ## The gateway -/

section Gateway

variable {G : GatewayChain} {owner : Address} {past calls : List (Address × GatewayCall)}

theorem decryption_kept (h : past <:+ calls) :
    (gatewayAfter G owner past).decryption.Kept (gatewayAfter G owner calls).decryption :=
  (decryptionPart G).part_rel DecryptionStorage.Kept.refl
    (fun _ _ _ => DecryptionStorage.Kept.trans)
    (fun _ _ _ _ => DecryptionStorage.Kept.of_ok) h

theorem kms_kept (h : past <:+ calls) :
    (gatewayAfter G owner past).kms.Kept (gatewayAfter G owner calls).kms :=
  (kmsPart G).part_rel KMSGenerationStorage.Kept.refl
    (fun _ _ _ => KMSGenerationStorage.Kept.trans)
    (fun _ _ _ _ => KMSGenerationStorage.Kept.of_ok) h

end Gateway

end Fhevm.Gateway
