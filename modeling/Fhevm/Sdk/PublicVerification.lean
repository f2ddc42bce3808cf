import Fhevm.Gateway.DecryptionConsensus
import Fhevm.Sdk.Eip712

/-!
# Verification of public decryptions

The Rust SDK checks the signatures of the KMS nodes on a public decryption itself. Its struct has
no extra data, so it recovers signers from another digest than the one that the nodes sign.

## Main definitions

* `verifySignatures` — the check, with its threshold.
* `verifySignatures_eq_ok` — what it accepts.
* `VerifiedResult` — what the gateway has verified when a decryption reaches consensus.
* `verifySignatures_rejects` — the SDK rejects all of that.
-/

namespace Fhevm.Sdk

open Foundation Contract Gateway Host

/-! ## The check -/

/-- The library for signatures. -/
structure SignatureLibrary (S : Type) where
  fromRaw : Bytes → Except String S
  recoverAddressFromPrehash : S → Bytes32 → Except String Address

/-- `eip712_domain!` -/
def createEip712Domain (chainId : UInt64) (verifyingContract : Address) : SolStruct where
  name := "EIP712Domain"
  fields := [("name", .string "Decryption"), ("version", .string "1"),
    ("chainId", .uint256 chainId.toNat), ("verifyingContract", .address verifyingContract)]

/-- The struct that the SDK takes the nodes to sign. -/
def publicDecryptVerification (ctHandles : List Bytes32) (decryptedResult : Bytes) : SolStruct where
  name := "PublicDecryptVerification"
  fields := [("ctHandles", .bytes32s ctHandles), ("decryptedResult", .bytes decryptedResult)]

def parseHandleToBytes32 (handle : String) : SdkResult Bytes32 :=
  match parseHexString handle "handle" with
  | .error _ => .error (.invalidParams "Invalid handle hex")
  | .ok bytes => do
    require (bytes.length = 32) (.invalidParams "Handle must be 32 bytes")
    return BitVec.ofNat 256 (BigEndian.decode bytes)

def createVerificationMessage (ctHandles : List String) (decryptedResult : String) :
    SdkResult SolStruct := do
  let ctHandlesBytes32 ← ctHandles.mapM parseHandleToBytes32
  let decryptedResultBytes ← parseHexString decryptedResult "decrypted result"
  return publicDecryptVerification ctHandlesBytes32 decryptedResultBytes

section Check

variable (keccak256 : Bytes → Bytes32) {S : Type} (T : SignatureLibrary S)

/-- The loop over the signatures, from an index on. -/
def recoverAddresses (signingHash : Bytes32) : List String → Nat → SdkResult (List String)
  | [], _ => .ok []
  | sigStr :: signatures, i => do
    let sigBytes ← parseHexString sigStr s!"signature {i}"
    let signature ← (T.fromRaw sigBytes).mapError fun e =>
      .decryptionError s!"Invalid signature {i} format: {e}"
    let recovered ← (T.recoverAddressFromPrehash signature signingHash).mapError fun e =>
      .decryptionError s!"Failed to recover address from signature {i}: {e}"
    let recoveredAddresses ← recoverAddresses signingHash signatures (i + 1)
    return addressText keccak256 recovered :: recoveredAddresses

def checkDuplicates (seen : List String) : List String → SdkResult Unit
  | [] => .ok ()
  | addr :: addresses => do
    require (addr ∉ seen) (.decryptionError
      s!"Duplicate KMS signer address found: {addr} appears multiple times")
    checkDuplicates (addr :: seen) addresses

def isThresholdReached (kmsSigners recoveredAddresses : List String) (threshold : Nat) :
    SdkResult Unit := do
  checkDuplicates [] recoveredAddresses
  let kmsSignersLower := kmsSigners.map String.toLower
  recoveredAddresses.forM fun addr => require (addr.toLower ∈ kmsSignersLower)
    (.decryptionError s!"Invalid address found: {addr} is not in the list of KMS signers")
  require (¬ recoveredAddresses.length < threshold)
    (.decryptionError "KMS signers threshold is not reached")

def verifySignatures (kmsSigners : List String) (threshold : Nat) (gatewayChainId : UInt64)
    (verifyingContractAddress : Address) (ctHandles : List String) (decryptedResult : String)
    (signatures : List String) : SdkResult Unit := do
  validateAddress verifyingContractAddress
  let domain := createEip712Domain gatewayChainId verifyingContractAddress
  let message ← createVerificationMessage ctHandles decryptedResult
  let signingHash := message.eip712SigningHash keccak256 domain
  let recoveredAddresses ← recoverAddresses keccak256 T signingHash signatures 0
  isThresholdReached kmsSigners recoveredAddresses threshold

/-! ## What is accepted -/

/-- The address is one of the texts, up to capitals. -/
def IsKmsSigner (kmsSigners : List String) (a : Address) : Prop :=
  (addressText keccak256 a).toLower ∈ kmsSigners.map String.toLower

/-- The text of a signature gives an address for a digest. -/
def Recovers (digest : Bytes32) (sigStr : String) (a : Address) : Prop :=
  ∃ bytes signature, parseHexString sigStr "signature" = .ok bytes ∧
    T.fromRaw bytes = .ok signature ∧ T.recoverAddressFromPrehash signature digest = .ok a

variable {keccak256 T}

/-- The name of a field is in the error only. -/
theorem parseHexString_eq_ok {text fieldName fieldName' : String} {bytes : Bytes} :
    parseHexString text fieldName = .ok bytes ↔ parseHexString text fieldName' = .ok bytes := by
  unfold parseHexString
  dsimp only
  split <;> simp

theorem recoverAddresses_eq_ok {digest : Bytes32} {signatures texts : List String} {i : Nat} :
    recoverAddresses keccak256 T digest signatures i = .ok texts ↔
      ∃ addresses, texts = addresses.map (addressText keccak256) ∧
        List.Forall₂ (Recovers T digest) signatures addresses := by
  induction signatures generalizing texts i with
  | nil => simp [recoverAddresses, eq_comm]
  | cons sigStr signatures ih =>
    simp only [recoverAddresses, bind_eq_ok, mapError_eq_ok, pure_eq_ok, ih,
      List.forall₂_cons_left_iff]
    constructor
    · rintro ⟨bytes, hbytes, signature, hsignature, a, ha, _, ⟨addresses, rfl, hall⟩, rfl⟩
      exact ⟨a :: addresses, rfl, a, addresses,
        ⟨bytes, signature, parseHexString_eq_ok.mp hbytes, hsignature, ha⟩, hall, rfl⟩
    · rintro ⟨_, rfl, a, addresses, ⟨bytes, signature, hbytes, hsignature, ha⟩, hall, rfl⟩
      exact ⟨bytes, parseHexString_eq_ok.mp hbytes, signature, hsignature, a, ha, _,
        ⟨addresses, rfl, hall⟩, rfl⟩

theorem checkDuplicates_eq_ok {seen addresses : List String} {u : Unit} :
    checkDuplicates seen addresses = .ok u ↔
      addresses.Nodup ∧ ∀ addr ∈ addresses, addr ∉ seen := by
  induction addresses generalizing seen with
  | nil => simp [checkDuplicates]
  | cons addr addresses ih =>
    simp only [checkDuplicates, bind_eq_ok, require_eq_ok, exists_const, ih, List.nodup_cons,
      List.mem_cons, not_or, forall_eq_or_imp]
    constructor
    · rintro ⟨hnew, hnodup, hrest⟩
      exact ⟨⟨fun hmem => (hrest addr hmem).1 rfl, hnodup⟩, hnew, fun b hb => (hrest b hb).2⟩
    · rintro ⟨⟨hnotmem, hnodup⟩, hnew, hrest⟩
      exact ⟨hnew, hnodup, fun b hb => ⟨fun h => hnotmem (h ▸ hb), hrest b hb⟩⟩

/-- The signatures are accepted if they recover enough distinct signers. -/
theorem isThresholdReached_eq_ok {kmsSigners : List String} {addresses : List Address}
    {threshold : Nat} {u : Unit} :
    isThresholdReached kmsSigners (addresses.map (addressText keccak256)) threshold = .ok u ↔
      addresses.Nodup ∧ (∀ a ∈ addresses, IsKmsSigner keccak256 kmsSigners a) ∧
        threshold ≤ addresses.length := by
  have hinjective : Function.Injective (addressText keccak256) := fun a b h =>
    addressText_injective keccak256 (congrArg String.toLower h)
  simp only [isThresholdReached, bind_eq_ok, checkDuplicates_eq_ok, require_eq_ok, exists_const,
    List.nodup_map_iff hinjective, List.forM_eq_forM, forM_eq_ok]
  simp [IsKmsSigner]

/-- The SDK accepts the signatures of enough distinct signers of its own struct. -/
theorem verifySignatures_eq_ok {kmsSigners : List String} {threshold : Nat} {chainId : UInt64}
    {address : Address} {ctHandles : List String} {decryptedResult : String}
    {signatures : List String} :
    verifySignatures keccak256 T kmsSigners threshold chainId address ctHandles decryptedResult
        signatures = .ok () ↔
      address ≠ 0 ∧ ∃ message,
        createVerificationMessage ctHandles decryptedResult = .ok message ∧ ∃ addresses,
          List.Forall₂ (Recovers T (message.eip712SigningHash keccak256
            (createEip712Domain chainId address))) signatures addresses ∧ addresses.Nodup ∧
            (∀ a ∈ addresses, IsKmsSigner keccak256 kmsSigners a) ∧
              threshold ≤ addresses.length := by
  simp only [verifySignatures, validateAddress, bind_eq_ok, require_eq_ok, exists_const,
    recoverAddresses_eq_ok]
  constructor
  · rintro ⟨haddress, message, hmessage, _, ⟨addresses, rfl, hall⟩, hreached⟩
    exact ⟨haddress, message, hmessage, addresses, hall, isThresholdReached_eq_ok.mp hreached⟩
  · rintro ⟨haddress, message, hmessage, addresses, hall, hreached⟩
    exact ⟨haddress, message, hmessage, _, ⟨addresses, rfl, hall⟩,
      isThresholdReached_eq_ok.mpr hreached⟩

end Check

/-! ## The two digests -/

section Digests

variable (D : GatewayDeployment) (v : PublicDecryptVerification)

/-- What the gateway hashes for the struct. -/
def gatewayEncoding : Bytes :=
  wordBytes (D.keccak256 (textBytes EIP712_PUBLIC_DECRYPT_TYPE)) ++
    wordBytes (D.keccak256 (v.ctHandles.flatMap wordBytes)) ++
      wordBytes (D.keccak256 v.decryptedResult) ++ wordBytes (D.keccak256 v.extraData)

/-- What the SDK hashes for its struct. -/
def sdkEncoding : Bytes :=
  let s := publicDecryptVerification v.ctHandles v.decryptedResult
  wordBytes (D.keccak256 (textBytes s.encodeType)) ++
    s.fields.flatMap fun f => f.2.encodeData D.keccak256

/-- The byte strings that are hashed for the two digests. -/
def hashedForResult : List Bytes :=
  let domain := domainSeparator D.keccak256 "Decryption" "1" D.chainid D.decryptionAddress
  [gatewayEncoding D v, sdkEncoding D v,
    typedDataEncoding domain (D.keccak256 (gatewayEncoding D v)),
    typedDataEncoding domain (D.keccak256 (sdkEncoding D v))]

/-- The digest that the SDK checks. -/
def sdkDigest (chainId : UInt64) : Bytes32 :=
  (publicDecryptVerification v.ctHandles v.decryptedResult).eip712SigningHash D.keccak256
    (createEip712Domain chainId D.decryptionAddress)

variable {D v}

theorem sdkDigest_eq {chainId : UInt64} (hchain : chainId.toNat = D.chainid) :
    sdkDigest D v chainId = toTypedDataHash D.keccak256
      (domainSeparator D.keccak256 "Decryption" "1" D.chainid D.decryptionAddress)
        (D.keccak256 (sdkEncoding D v)) := by
  have hdomain : (createEip712Domain chainId D.decryptionAddress).hashStruct D.keccak256 =
      domainSeparator D.keccak256 "Decryption" "1" D.chainid D.decryptionAddress := by
    rw [← hchain]
    exact hashStruct_domain ..
  rw [sdkDigest, SolStruct.eip712SigningHash, hdomain]
  rfl

/-- The extra data is a word more. -/
theorem sdkDigest_ne {chainId : UInt64} (hchain : chainId.toNat = D.chainid)
    (hkeccak : Set.InjOn D.keccak256 {b | b ∈ hashedForResult D v}) :
    sdkDigest D v chainId ≠ hashPublicDecryptVerification D v := by
  have hgateway : hashPublicDecryptVerification D v = toTypedDataHash D.keccak256
      (domainSeparator D.keccak256 "Decryption" "1" D.chainid D.decryptionAddress)
        (D.keccak256 (gatewayEncoding D v)) := rfl
  rw [sdkDigest_eq hchain, hgateway]
  intro h
  have htyped := hkeccak (by simp [hashedForResult]) (by simp [hashedForResult]) h
  have hstruct := hkeccak (by simp [hashedForResult]) (by simp [hashedForResult])
    (typedDataEncoding_injective htyped).2
  have hlength := congrArg List.length hstruct
  simp [sdkEncoding, gatewayEncoding, publicDecryptVerification, SolValue.encodeData] at hlength

end Digests

/-! ## Results of the gateway -/

section Results

variable (D : GatewayDeployment) {S : Type} (T : SignatureLibrary S) (signers : List Address)

/-- What the gateway has verified when a public decryption reaches consensus. -/
structure VerifiedResult (threshold : Nat) (v : PublicDecryptVerification)
    (signatures : List Bytes) : Prop where
  nonempty : signatures ≠ []
  enough : threshold ≤ signatures.length
  signed : ∃ voters : List Address, voters.Nodup ∧ (∀ a ∈ voters, a ∈ signers) ∧
    List.Forall₂ (fun signature a =>
      D.recover (hashPublicDecryptVerification D v) signature = some a) signatures voters

/-- The signature of a signer for a digest recovers no signer from another digest. -/
def SignaturesBind : Prop :=
  ∀ digest digest' bytes signature, T.fromRaw bytes = .ok signature → ∀ a ∈ signers,
    D.recover digest bytes = some a → ∀ a' ∈ signers,
      T.recoverAddressFromPrehash signature digest' = .ok a' → digest = digest'

variable {D T signers}

/-- A public decryption that is declared done has been verified. -/
theorem verifiedResult_of_declares {i : GatewayTx × DecryptionCall}
    {past : List (GatewayTx × DecryptionCall)} {id : Nat} {decryptedResult extraData : Bytes}
    {signatures : List Bytes} (hsigners : ∀ v ∈ decryptionVotes D (i :: past), v.voter ∈ signers)
    (h : DeclaresDecryption D i (decryptionAfter D past)
      (.publicResult id decryptedResult extraData signatures)) :
    ∃ ctHandles, PublicRequested D past id ctHandles ∧
      VerifiedResult D signers i.1.config.publicDecryptionThreshold
        ⟨ctHandles, decryptedResult, extraData⟩ signatures := by
  obtain ⟨ctHandles, hrequested, ballots, hballots, hne, rfl, henough⟩ :=
    publicSignatures_of_declares h
  refine ⟨ctHandles, hrequested, ?_, (List.length_map _).symm ▸ henough, ballots.map Ballot.voter,
    ?_, ?_, signatures_recovered hballots⟩
  · simpa using hne
  · rw [hballots]
    exact decryptionVoters_nodup (.publicResult id _)
  · intro a ha
    obtain ⟨w, hw, rfl⟩ := List.mem_map.mp ha
    exact hsigners w (List.mem_of_mem_filter (hballots ▸ hw))

/-- The texts that an application passes for a result. -/
structure TextsOf (v : PublicDecryptVerification) (ctHandles : List String)
    (decryptedResult : String) : Prop where
  handles : List.Forall₂ (fun text h => parseHandleToBytes32 text = .ok h) ctHandles v.ctHandles
  result : parseHexString decryptedResult "decrypted result" = .ok v.decryptedResult

theorem TextsOf.message {v : PublicDecryptVerification} {ctHandles : List String}
    {decryptedResult : String} (h : TextsOf v ctHandles decryptedResult) :
    createVerificationMessage ctHandles decryptedResult =
      .ok (publicDecryptVerification v.ctHandles v.decryptedResult) := by
  simp only [createVerificationMessage, bind_eq_ok, mapM_eq_ok, pure_eq_ok]
  exact ⟨_, h.handles, _, h.result, rfl⟩

/-- The SDK rejects every result that the gateway has verified, although it is given the same
signers, threshold, chain and contract; and a list that it accepts has no signature of the
result at all. -/
theorem verifySignatures_rejects (D : GatewayDeployment) {S : Type} (T : SignatureLibrary S)
    (signers : List Address) (threshold : Nat) (v : PublicDecryptVerification)
    (signatures : List Bytes) (kmsSigners : List String) (gatewayChainId : UInt64)
    (ctHandles : List String) (decryptedResult : String)
    (hverified : VerifiedResult D signers threshold v signatures)
    (hsigners : ∀ a, IsKmsSigner D.keccak256 kmsSigners a ↔ a ∈ signers)
    (hchain : gatewayChainId.toNat = D.chainid) (htexts : TextsOf v ctHandles decryptedResult)
    (hbind : SignaturesBind D T signers)
    (hkeccak : Set.InjOn D.keccak256 {b | b ∈ hashedForResult D v}) :
    (∀ sigTexts, List.Forall₂ (fun text sig => parseHexString text "signature" = .ok sig) sigTexts
        signatures → verifySignatures D.keccak256 T kmsSigners threshold gatewayChainId
          D.decryptionAddress ctHandles decryptedResult sigTexts ≠ .ok ()) ∧
      ∀ sigTexts, verifySignatures D.keccak256 T kmsSigners threshold gatewayChainId
          D.decryptionAddress ctHandles decryptedResult sigTexts = .ok () →
        ∀ text ∈ sigTexts, ∀ bytes, parseHexString text "signature" = .ok bytes →
          ∀ a ∈ signers, D.recover (hashPublicDecryptVerification D v) bytes ≠ some a := by
  -- an accepted signature is one for the digest of the SDK
  have hnone : ∀ sigTexts, verifySignatures D.keccak256 T kmsSigners threshold gatewayChainId
      D.decryptionAddress ctHandles decryptedResult sigTexts = .ok () →
      ∀ text ∈ sigTexts, ∀ bytes, parseHexString text "signature" = .ok bytes →
        ∀ a ∈ signers, D.recover (hashPublicDecryptVerification D v) bytes ≠ some a := by
    intro sigTexts haccept text htext bytes hbytes a ha hrecover
    obtain ⟨-, message, hmessage, addresses, hall, -, hregistered, -⟩ :=
      verifySignatures_eq_ok.mp haccept
    obtain rfl := Except.ok.inj (htexts.message.symm.trans hmessage)
    obtain ⟨i, rfl⟩ := List.mem_iff_get.mp htext
    obtain ⟨hlength, hget⟩ := List.forall₂_iff_get.mp hall
    have hi : i.val < addresses.length := hlength ▸ i.isLt
    obtain ⟨bytes', signature, hbytes', hraw, hsdk⟩ := hget i i.isLt hi
    obtain rfl : bytes = bytes' := Except.ok.inj (hbytes.symm.trans hbytes')
    exact sdkDigest_ne hchain hkeccak (hbind _ _ bytes signature hraw a ha hrecover _
      ((hsigners _).mp (hregistered _ (List.get_mem addresses ⟨i, hi⟩))) hsdk).symm
  refine ⟨fun sigTexts hparsed haccept => ?_, hnone⟩
  obtain ⟨voters, -, hregistered, hsigned⟩ := hverified.signed
  cases hsigned with
  | nil => exact hverified.nonempty rfl
  | cons hfirst _ =>
    cases hparsed with
    | cons hbytes _ =>
      exact hnone _ haccept _ List.mem_cons_self _ hbytes _ (hregistered _ List.mem_cons_self)
        hfirst

end Results

/-! ## A result of one signer -/

/-- A hash that takes the length into account. -/
def resultKeccak (bytes : Bytes) : Bytes32 :=
  BitVec.ofNat 256 (BigEndian.decode (1 :: bytes) % 1000003 + 1)

/-- A boolean of chain 1 is decrypted to true. -/
def sampleResult : PublicDecryptVerification := ⟨[1 <<< 16], [1], [0]⟩

/-- The digest that the gateway checks. -/
def resultDigest : Bytes32 :=
  hashPublicDecryptVerification { sampleDeployment with keccak256 := resultKeccak } sampleResult

/-- The node with address 40 has signed the digest of the gateway. -/
def resultDeployment : GatewayDeployment :=
  { sampleDeployment with
    keccak256 := resultKeccak
    recover := fun digest _ => if digest = resultDigest then some 40 else some 41 }

def resultLibrary : SignatureLibrary Bytes where
  fromRaw bytes := if bytes.length = 65 then .ok bytes else .error "invalid length"
  recoverAddressFromPrehash _ digest := if digest = resultDigest then .ok 40 else .ok 41

def handleText : String := String.ofList (hexEncode (wordBytes (1 <<< 16)))

def signatureText : String := String.ofList (List.replicate 130 '0')

theorem hash_resultDeployment :
    hashPublicDecryptVerification resultDeployment sampleResult = resultDigest :=
  rfl

theorem parse_signatureText (fieldName : String) :
    parseHexString signatureText fieldName = .ok (List.replicate 65 0) := by
  have htext : signatureText = String.ofList (hexEncode (List.replicate 65 0)) := by
    rw [hexEncode_zeros]
    rfl
  rw [htext]
  exact parseHexString_hexEncode (List.replicate 65 0) fieldName

theorem sampleResult_texts : TextsOf sampleResult [handleText] "0x01" where
  handles := by
    refine .cons ?_ .nil
    rw [parseHandleToBytes32, handleText, parseHexString_hexEncode]
    rfl
  result := by decide +kernel

theorem resultKeccak_injOn :
    Set.InjOn resultKeccak {b | b ∈ hashedForResult resultDeployment sampleResult} := by
  have hnodup : ((hashedForResult resultDeployment sampleResult).map resultKeccak).Nodup := by
    decide +kernel
  exact fun a ha b hb hab => List.inj_on_of_nodup_map hnodup ha hb hab

theorem isKmsSigner_address {a : Address} :
    IsKmsSigner resultKeccak [addressText resultKeccak 40] a ↔ a = 40 := by
  simp only [IsKmsSigner, List.map_cons, List.map_nil, List.mem_singleton]
  exact ⟨fun h => addressText_injective resultKeccak h, fun h => h ▸ rfl⟩

theorem sampleResult_verified :
    VerifiedResult resultDeployment [40] 1 sampleResult [List.replicate 65 0] where
  nonempty := by simp
  enough := by simp
  signed := by
    refine ⟨[40], by simp, by simp, .cons ?_ .nil⟩
    rw [hash_resultDeployment]
    simp [resultDeployment]

/-- The SDK does not accept it. -/
theorem sampleResult_rejected :
    verifySignatures resultKeccak resultLibrary [addressText resultKeccak 40] 1 5
      resultDeployment.decryptionAddress [handleText] "0x01" [signatureText] ≠ .ok () := by
  have hbind : SignaturesBind resultDeployment resultLibrary [40] := by
    intro digest digest' bytes signature _ a ha hrecover a' ha' hrecover'
    rw [List.mem_singleton.mp ha] at hrecover
    rw [List.mem_singleton.mp ha'] at hrecover'
    have hdigest : digest = resultDigest := by
      by_contra hne
      simp [resultDeployment, hne] at hrecover
    have hdigest' : digest' = resultDigest := by
      by_contra hne
      simp [resultLibrary, hne] at hrecover'
    rw [hdigest, hdigest']
  exact (verifySignatures_rejects resultDeployment resultLibrary [40] 1 sampleResult
    [List.replicate 65 0] [addressText resultKeccak 40] 5 [handleText] "0x01"
    sampleResult_verified (fun a => isKmsSigner_address.trans List.mem_singleton.symm) (by decide)
    sampleResult_texts hbind resultKeccak_injOn).1 [signatureText]
    (.cons (parse_signatureText _) .nil)

/-- The gateway has verified the result, and the SDK recovers a stranger. -/
theorem sampleResult_stranger :
    VerifiedResult resultDeployment [40] 1 sampleResult [List.replicate 65 0] ∧
      verifySignatures resultKeccak resultLibrary [addressText resultKeccak 40] 1 5
        resultDeployment.decryptionAddress [handleText] "0x01" [signatureText] =
          .error (.decryptionError ("Invalid address found: " ++ addressText resultKeccak 41 ++
            " is not in the list of KMS signers")) := by
  refine ⟨sampleResult_verified, ?_⟩
  have hdigest : sdkDigest resultDeployment sampleResult 5 ≠ resultDigest :=
    hash_resultDeployment ▸ sdkDigest_ne rfl resultKeccak_injOn
  have hraw : resultLibrary.fromRaw (List.replicate 65 0) = .ok (List.replicate 65 0) := by
    simp [resultLibrary]
  have hstranger : resultLibrary.recoverAddressFromPrehash (List.replicate 65 0)
      (sdkDigest resultDeployment sampleResult 5) = .ok 41 := by
    simp [resultLibrary, hdigest]
  have hrecovered : recoverAddresses resultKeccak resultLibrary
      (sdkDigest resultDeployment sampleResult 5) [signatureText] 0 =
        .ok [addressText resultKeccak 41] :=
    recoverAddresses_eq_ok.mpr ⟨[41], rfl,
      .cons ⟨_, _, parse_signatureText _, hraw, hstranger⟩ .nil⟩
  have hlisted : ¬ (addressText resultKeccak 41).toLower ∈
      [addressText resultKeccak 40].map String.toLower := by
    intro h
    exact absurd (isKmsSigner_address.mp h) (by decide)
  have hvalid : validateAddress resultDeployment.decryptionAddress = .ok () := rfl
  have hreached : isThresholdReached [addressText resultKeccak 40] [addressText resultKeccak 41] 1 =
      .error (.decryptionError ("Invalid address found: " ++ addressText resultKeccak 41 ++
        " is not in the list of KMS signers")) :=
    bind_eq_error.mpr (.inr ⟨(), rfl, bind_eq_error.mpr (.inl (bind_eq_error.mpr
      (.inl (require_eq_error.mpr ⟨hlisted, rfl⟩))))⟩)
  exact bind_eq_error.mpr (.inr ⟨(), hvalid, bind_eq_error.mpr (.inr ⟨_, sampleResult_texts.message,
    bind_eq_error.mpr (.inr ⟨_, hrecovered, hreached⟩)⟩)⟩)

end Fhevm.Sdk
