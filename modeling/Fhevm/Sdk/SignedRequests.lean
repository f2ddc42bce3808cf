import Fhevm.Gateway.UserRequests
import Fhevm.Sdk.UserDecryptRequest

/-!
# Requests that the SDK signs and sends

An application gives the same data to both builders. The gateway recomputes the digest
from the call, and it is the signed one exactly if the extra data has been set to nothing
and no contract is repeated.

## Main definitions

* `SdkRequest` — the data of an application.
* `SdkRequest.signedHash`, `SdkRequest.calldata` — what the two builders make of it.
* `signedHash_eq_iff` — when the gateway recomputes what was signed.
-/

namespace Fhevm.Sdk

open Foundation Contract Gateway Host

/-! ## The two builders on one request -/

/-- The data of an application. The handles come with their contracts, in one or more calls; the
signer keeps its default where no extra data is given. -/
structure SdkRequest where
  publicKey : String
  handles : List (List Bytes × List Address)
  startTimestamp : UInt64
  durationDays : UInt64
  extraData : Option Bytes
  userAddress : Address

namespace SdkRequest

variable (q : SdkRequest)

def contracts : List Address := q.handles.flatMap Prod.snd

/-- The digest that the signature builder signs. -/
def signedHash (keccak256 : Bytes → Bytes32) (config : Eip712Config) (now : UInt64) :
    SdkResult Bytes32 := do
  let b ← ((Eip712SignatureBuilder.new config).withPublicKey q.publicKey).withContracts q.contracts
  let b := b.withValidityPeriod q.startTimestamp q.durationDays
  let b :=
    match q.extraData with
    | some extraData => b.withExtraData extraData
    | none => b
  b.generateHash keccak256 now

/-- The call that the request builder makes, with a signature. -/
def calldata (config : Eip712Config) (signature : String) : SdkResult UserDecryptionRequest := do
  let b := UserDecryptRequestBuilder.new.withContractsChainId config.contractsChainId
  let b ← q.handles.foldlM (fun b handles => b.withHandlesFromBytes handles.1 handles.2) b
  let b ← b.withUserAddress q.userAddress
  let b ← b.withSignatureFromHex signature
  let b ← b.withPublicKeyFromHex q.publicKey
  let b ← b.withValidity q.startTimestamp q.durationDays
  b.buildAndGenerateCalldata

/-- The struct that is signed. -/
def signed (publicKey : Bytes) : UserDecryptRequestVerification where
  publicKey := publicKey
  contractAddresses := q.contracts
  startTimestamp := q.startTimestamp.toNat
  durationDays := q.durationDays.toNat
  extraData := q.extraData.getD [0]

end SdkRequest

/-! ## What is signed -/

section Signed

variable {q : SdkRequest} {config : Eip712Config} {now : UInt64} {hash : Bytes32}

theorem encodeType_userDecryptRequestVerification (publicKey : Bytes) (as : List Address)
    (start duration : UInt64) (extraData : Bytes) :
    (userDecryptRequestVerification publicKey as start duration extraData).encodeType =
      EIP712_USER_DECRYPT_REQUEST_TYPE := by
  change encodeType "UserDecryptRequestVerification" [("bytes", "publicKey"),
    ("address[]", "contractAddresses"), ("uint256", "startTimestamp"), ("uint256", "durationDays"),
    ("bytes", "extraData")] = _
  decide +kernel

/-- The SDK and the gateway hash structs in the same way. -/
theorem eip712SigningHash_eq (D : GatewayDeployment) (publicKey : Bytes) (as : List Address)
    (start duration : UInt64) (extraData : Bytes)
    (haddress : config.verifyingContract = D.decryptionAddress) :
    (userDecryptRequestVerification publicKey as start duration extraData).eip712SigningHash
        D.keccak256 config.domain =
      hashUserDecryptRequestVerification D ⟨publicKey, as, start.toNat, duration.toNat, extraData⟩
        config.contractsChainId.toNat := by
  have hdomain : config.domain.hashStruct D.keccak256 =
      domainSeparator D.keccak256 "Decryption" "1" config.contractsChainId.toNat
        D.decryptionAddress := by
    rw [← haddress]
    exact hashStruct_domain ..
  have hstruct : (userDecryptRequestVerification publicKey as start duration
      extraData).hashStruct D.keccak256 = D.keccak256 (UserDecryptRequestVerification.encoding D
        ⟨publicKey, as, start.toNat, duration.toNat, extraData⟩) := by
    rw [SolStruct.hashStruct, encodeType_userDecryptRequestVerification]
    simp [UserDecryptRequestVerification.encoding, userDecryptRequestVerification,
      SolValue.encodeData]
  rw [SolStruct.eip712SigningHash, hdomain, hstruct]
  rfl

theorem withContracts_ok {b b' : Eip712SignatureBuilder} {addresses : List Address}
    (h : b.withContracts addresses = .ok b') :
    b' = { b with contractAddresses := b.contractAddresses ++ addresses } := by
  unfold Eip712SignatureBuilder.withContracts at h
  induction addresses generalizing b with
  | nil =>
    cases h
    simp
  | cons a addresses ih =>
    simp only [List.foldlM_cons, Eip712SignatureBuilder.withContract, bind_eq_ok, pure_eq_ok] at h
    obtain ⟨_, ⟨_, -, rfl⟩, h⟩ := h
    rw [ih h]
    simp

/-- The signed digest is that of the data, with the default for the extra data. -/
theorem signedHash_ok (D : GatewayDeployment)
    (haddress : config.verifyingContract = D.decryptionAddress)
    (h : q.signedHash D.keccak256 config now = .ok hash) :
    ∃ publicKey, parseHexString q.publicKey "public key" = .ok publicKey ∧
      hash = hashUserDecryptRequestVerification D (q.signed publicKey)
        config.contractsChainId.toNat := by
  simp only [SdkRequest.signedHash, bind_eq_ok] at h
  obtain ⟨b, hb, h⟩ := h
  obtain rfl := withContracts_ok hb
  cases hextra : q.extraData with
  | none =>
    simp only [hextra, Eip712SignatureBuilder.generateHash, bind_eq_ok, pure_eq_ok] at h
    obtain ⟨_, -, publicKey, hkey, rfl⟩ := h
    refine ⟨publicKey, hkey, (eip712SigningHash_eq D _ _ _ _ _ haddress).trans ?_⟩
    simp [SdkRequest.signed, hextra, Eip712SignatureBuilder.new,
      Eip712SignatureBuilder.withPublicKey, Eip712SignatureBuilder.withValidityPeriod]
  | some extraData =>
    simp only [hextra, Eip712SignatureBuilder.generateHash, bind_eq_ok, pure_eq_ok] at h
    obtain ⟨_, -, publicKey, hkey, rfl⟩ := h
    refine ⟨publicKey, hkey, (eip712SigningHash_eq D _ _ _ _ _ haddress).trans ?_⟩
    simp [SdkRequest.signed, hextra, Eip712SignatureBuilder.new,
      Eip712SignatureBuilder.withPublicKey, Eip712SignatureBuilder.withValidityPeriod,
      Eip712SignatureBuilder.withExtraData]

end Signed

/-! ## What is sent -/

section Sent

variable {q : SdkRequest} {config : Eip712Config} {signature : String} {r : UserDecryptionRequest}

/-- The contracts that are kept of a list are as many as the list only if nothing is repeated. -/
theorem length_foldl_addContract (kept as : List Address) :
    (as.foldl addContract kept).length ≤ kept.length + as.length := by
  induction as generalizing kept with
  | nil => simp
  | cons a as ih =>
    have hlength := ih (addContract kept a)
    have hstep : (addContract kept a).length ≤ kept.length + 1 := by
      unfold addContract
      split_ifs <;> simp
    simp only [List.foldl_cons, List.length_cons]
    omega

theorem foldl_addContract_eq_iff {kept as : List Address} (hkept : kept.Nodup) :
    as.foldl addContract kept = kept ++ as ↔ (kept ++ as).Nodup := by
  induction as generalizing kept with
  | nil => simpa using hkept
  | cons a as ih =>
    rw [List.foldl_cons]
    by_cases ha : a ∈ kept
    · have hshort := length_foldl_addContract kept as
      have hadd : addContract kept a = kept := if_pos ha
      rw [hadd]
      constructor
      · intro h
        have hlength := congrArg List.length h
        simp only [List.length_append, List.length_cons] at hlength
        omega
      · exact fun h => absurd rfl ((List.nodup_append.mp h).2.2 a ha a List.mem_cons_self)
    · have hadd : addContract kept a = kept ++ [a] := if_neg ha
      have hnext : (kept ++ [a]).Nodup := by
        rw [List.nodup_append]
        refine ⟨hkept, List.nodup_singleton a, fun b hb c hc hbc => ha ?_⟩
        rw [← List.mem_singleton.mp hc, ← hbc]
        exact hb
      have happend : kept ++ a :: as = (kept ++ [a]) ++ as := by simp
      rw [hadd, happend]
      exact ih hnext

/-- The request builder keeps each contract once and changes nothing but handles and contracts. -/
theorem withHandles_ok {b b' : UserDecryptRequestBuilder}
    {handles : List (List Bytes × List Address)}
    (h : handles.foldlM (fun b handles => b.withHandlesFromBytes handles.1 handles.2) b = .ok b') :
    b' = { b with
      ctHandleContractPairs := b'.ctHandleContractPairs
      contractAddresses := (handles.flatMap Prod.snd).foldl addContract b.contractAddresses } := by
  induction handles generalizing b with
  | nil =>
    cases h
    rfl
  | cons first handles ih =>
    simp only [List.foldlM_cons, UserDecryptRequestBuilder.withHandlesFromBytes, bind_eq_ok,
      pure_eq_ok] at h
    obtain ⟨_, ⟨_, -, pairs, -, rfl⟩, h⟩ := h
    have hrest := ih h
    rw [List.flatMap_cons, List.foldl_append]
    exact hrest

/-- The call has the data without repeated contracts and without extra data. -/
theorem calldata_ok (h : q.calldata config signature = .ok r) :
    ∃ publicKey, parseHexString q.publicKey "public key" = .ok publicKey ∧
      r.userAddress = q.userAddress ∧ r.contractsInfo.chainId = config.contractsChainId.toNat ∧
        r.verification = ⟨publicKey, q.contracts.foldl addContract [], q.startTimestamp.toNat,
          q.durationDays.toNat, []⟩ := by
  simp only [SdkRequest.calldata, UserDecryptRequestBuilder.withUserAddress,
    UserDecryptRequestBuilder.withSignatureFromHex, UserDecryptRequestBuilder.withPublicKeyFromHex,
    UserDecryptRequestBuilder.withValidity, UserDecryptRequestBuilder.buildAndGenerateCalldata,
    UserDecryptRequestBuilder.build, bind_eq_ok, pure_eq_ok, required_eq_ok] at h
  obtain ⟨b, hb, _, ⟨_, -, rfl⟩, _, ⟨_, -, _, -, rfl⟩, _, ⟨publicKey, hkey, _, -, rfl⟩, _,
    ⟨_, -, rfl⟩, chainId, hchain, request, hbuild, rfl⟩ := h
  obtain ⟨_, -, user, huser, _, -, key, hkey', start, hstart, duration, hduration, _, -, _, -,
    rfl⟩ := hbuild
  have hkept := withHandles_ok hb
  have hcontracts : b.contractAddresses = q.contracts.foldl addContract [] :=
    congrArg UserDecryptRequestBuilder.contractAddresses hkept
  have hchain' : b.contractsChainId = some config.contractsChainId :=
    congrArg UserDecryptRequestBuilder.contractsChainId hkept
  obtain rfl : config.contractsChainId = chainId := Option.some.inj (hchain'.symm.trans hchain)
  cases huser
  cases hkey'
  cases hstart
  cases hduration
  exact ⟨publicKey, hkey, rfl, rfl, by simp [UserDecryptionRequest.verification,
    userDecryptionReq, hcontracts]⟩

end Sent

/-! ## When the gateway recomputes what was signed -/

/-- The digest that the SDK signs is the one that the gateway recomputes from the call of the SDK
exactly if the extra data has been set to nothing and no contract is repeated; and then the
signature of the user passes the check. -/
theorem signedHash_eq_iff (D : GatewayDeployment) (q : SdkRequest) (config : Eip712Config)
    (now : UInt64) (signature : String) (hash : Bytes32) (r : UserDecryptionRequest)
    (haddress : config.verifyingContract = D.decryptionAddress)
    (hsigned : q.signedHash D.keccak256 config now = .ok hash)
    (hcall : q.calldata config signature = .ok r)
    (hapart : NoCollision D (q.signed r.publicKey) r.verification config.contractsChainId.toNat
      r.contractsInfo.chainId) :
    (hash = hashUserDecryptRequestVerification D r.verification r.contractsInfo.chainId ↔
        q.extraData = some [] ∧ q.contracts.Nodup) ∧
      (q.extraData = some [] ∧ q.contracts.Nodup →
        D.recover hash r.signature = some q.userAddress →
          validateUserDecryptRequestEIP712Signature D r.verification r.userAddress r.signature
            r.contractsInfo.chainId = .ok ()) := by
  obtain ⟨publicKey, hkey, rfl⟩ := signedHash_ok D haddress hsigned
  obtain ⟨publicKey', hkey', huser, hchain, hverification⟩ := calldata_ok hcall
  obtain rfl : publicKey = publicKey' := Except.ok.inj (hkey.symm.trans hkey')
  have hpublicKey : r.publicKey = publicKey := congrArg (·.publicKey) hverification
  rw [hpublicKey, hchain, hverification] at hapart
  rw [hchain, hverification]
  have hsize : ∀ n : UInt64, n.toNat < 2 ^ 256 := fun n =>
    n.toNat_lt.trans (by norm_num)
  have hiff := hashUserDecryptRequestVerification_eq_iff hapart ⟨hsize _, hsize _⟩
    ⟨hsize _, hsize _⟩ (hsize _) (hsize _)
  have hdata : q.signed publicKey = ⟨publicKey, q.contracts.foldl addContract [],
      q.startTimestamp.toNat, q.durationDays.toNat, []⟩ ↔
        q.extraData = some [] ∧ q.contracts.Nodup := by
    have hcontracts : q.contracts.foldl addContract [] = q.contracts ↔ q.contracts.Nodup :=
      foldl_addContract_eq_iff List.nodup_nil
    have hextra : q.extraData.getD [0] = [] ↔ q.extraData = some [] := by
      cases q.extraData with
      | none => simp
      | some extraData => simp
    simp only [SdkRequest.signed, UserDecryptRequestVerification.mk.injEq, true_and, hextra]
    rw [← hcontracts, eq_comm (a := q.contracts), and_comm]
  have hsame := hiff.trans (by rw [hdata, and_iff_left rfl])
  refine ⟨hsame, fun hcond hrecover => ?_⟩
  rw [hsame.mpr hcond] at hrecover
  simp [validateUserDecryptRequestEIP712Signature, hrecover, huser]

/-! ## Two requests -/

/-- A boolean of chain 1 and two contracts, with the extra data that the signer sets. -/
def sampleRequest (extraData : Option Bytes) : SdkRequest where
  publicKey := "0x0a1B"
  handles := [([List.replicate 29 0 ++ [1, 0, 0]], [8, 9])]
  startTimestamp := 100
  durationDays := 1
  extraData := extraData
  userAddress := 40

def sampleConfig : Eip712Config := ⟨5, 70, 1⟩

def sampleSignature : String := String.ofList (List.replicate 130 '0')

/-- The call that both requests lead to. -/
def sampleCall : UserDecryptionRequest where
  ctHandleContractPairs := [⟨1 <<< 16, 8⟩]
  requestValidity := ⟨100, 1⟩
  contractsInfo := ⟨1, [8, 9]⟩
  userAddress := 40
  publicKey := [0x0a, 0x1b]
  signature := List.replicate 65 0
  extraData := []

/-- A hash that takes the length into account. -/
def sampleKeccak (bytes : Bytes) : Bytes32 :=
  BitVec.ofNat 256 (BigEndian.decode (1 :: bytes) % 1000003 + 1)

/-- The user has signed one digest. -/
def deploymentOf (hash : Bytes32) : GatewayDeployment :=
  { sampleDeployment with
    keccak256 := sampleKeccak
    recover := fun digest _ => if digest = hash then some 40 else some 41 }

/-- What is signed by default. -/
def defaultHash : Bytes32 :=
  hashUserDecryptRequestVerification (deploymentOf 0)
    ((sampleRequest none).signed sampleCall.publicKey) 1

def emptyHash : Bytes32 :=
  hashUserDecryptRequestVerification (deploymentOf 0) sampleCall.verification 1

theorem hash_deploymentOf (hash : Bytes32) (v : UserDecryptRequestVerification) (chainId : Nat) :
    hashUserDecryptRequestVerification (deploymentOf hash) v chainId =
      hashUserDecryptRequestVerification (deploymentOf 0) v chainId :=
  rfl

theorem parse_sampleSignature (fieldName : String) :
    parseHexString sampleSignature fieldName = .ok (List.replicate 65 0) := by
  have htext : sampleSignature = String.ofList (hexEncode (List.replicate 65 0)) := by
    rw [hexEncode_zeros]
    rfl
  rw [htext]
  exact parseHexString_hexEncode (List.replicate 65 0) fieldName

theorem parse_samplePublicKey :
    parseHexString (sampleRequest none).publicKey "public key" = .ok sampleCall.publicKey := by
  decide +kernel

/-- What the SDK signs for the sample. -/
theorem signedHash_sample {extraData : Option Bytes}
    (hok : ((sampleRequest extraData).signedHash sampleKeccak sampleConfig 100).isOk = true) :
    (sampleRequest extraData).signedHash sampleKeccak sampleConfig 100 =
      .ok (hashUserDecryptRequestVerification (deploymentOf 0)
        ((sampleRequest extraData).signed sampleCall.publicKey) 1) := by
  obtain ⟨hash, hsigned⟩ := exists_of_isOk hok
  obtain ⟨publicKey, hkey, rfl⟩ := signedHash_ok (deploymentOf 0) rfl hsigned
  obtain rfl := Except.ok.inj (hkey.symm.trans parse_samplePublicKey)
  exact hsigned

/-- The builder when it has got the handles and the user. -/
def sampleBuilder : UserDecryptRequestBuilder where
  ctHandleContractPairs := sampleCall.ctHandleContractPairs
  contractAddresses := [8, 9]
  userAddress := some 40
  signature := none
  publicKey := none
  startTimestamp := none
  durationDays := none
  contractsChainId := some 1

theorem calldata_sample (extraData : Option Bytes) :
    (sampleRequest extraData).calldata sampleConfig sampleSignature = .ok sampleCall := by
  have hhandles : (sampleRequest none).handles.foldlM
      (fun b handles => b.withHandlesFromBytes handles.1 handles.2)
        (UserDecryptRequestBuilder.new.withContractsChainId sampleConfig.contractsChainId) =
      .ok { sampleBuilder with userAddress := none } := rfl
  have hsignature : sampleBuilder.withSignatureFromHex sampleSignature =
      .ok { sampleBuilder with signature := some sampleCall.signature } :=
    bind_eq_ok.mpr ⟨_, parse_sampleSignature _, rfl⟩
  have hkey : ({ sampleBuilder with signature := some sampleCall.signature } :
      UserDecryptRequestBuilder).withPublicKeyFromHex (sampleRequest none).publicKey =
        .ok { sampleBuilder with
          signature := some sampleCall.signature
          publicKey := some sampleCall.publicKey } :=
    bind_eq_ok.mpr ⟨_, parse_samplePublicKey, rfl⟩
  exact bind_eq_ok.mpr ⟨_, hhandles, bind_eq_ok.mpr ⟨sampleBuilder, rfl, bind_eq_ok.mpr
    ⟨_, hsignature, bind_eq_ok.mpr ⟨_, hkey, bind_eq_ok.mpr ⟨_, rfl, rfl⟩⟩⟩⟩⟩

theorem defaultHash_ne : defaultHash ≠ emptyHash := by decide +kernel

theorem emptyExtraData_accepted :
    (sampleRequest (some [])).signedHash sampleKeccak sampleConfig 100 =
        .ok emptyHash ∧
      validateUserDecryptRequestEIP712Signature (deploymentOf emptyHash) sampleCall.verification
        sampleCall.userAddress sampleCall.signature 1 = .ok () := by
  have hsame : (sampleRequest (some [])).signed sampleCall.publicKey = sampleCall.verification :=
    rfl
  have hsigned : (sampleRequest (some [])).signedHash sampleKeccak sampleConfig 100 =
      .ok emptyHash := signedHash_sample (by decide +kernel)
  have hapart : NoCollision (deploymentOf emptyHash)
      ((sampleRequest (some [])).signed sampleCall.publicKey) sampleCall.verification
      sampleConfig.contractsChainId.toNat sampleCall.contractsInfo.chainId := by
    rw [hsame]
    exact List.forall₂_same.mpr fun _ _ _ => rfl
  exact ⟨hsigned, (signedHash_eq_iff (deploymentOf emptyHash) (sampleRequest (some []))
    sampleConfig 100 sampleSignature emptyHash sampleCall rfl hsigned (calldata_sample _) hapart).2
    ⟨rfl, by decide⟩ (by simp [deploymentOf, sampleRequest])⟩

/-- The call of a request with the default for the extra data is rejected, although the user has
signed what the SDK asked for. -/
theorem defaultExtraData_rejected :
    (sampleRequest none).signedHash sampleKeccak sampleConfig 100 =
        .ok defaultHash ∧
      (sampleRequest none).calldata sampleConfig sampleSignature = .ok sampleCall ∧
        (deploymentOf defaultHash).recover defaultHash sampleCall.signature =
          some sampleCall.userAddress ∧
        defaultHash ≠ hashUserDecryptRequestVerification (deploymentOf defaultHash)
          sampleCall.verification sampleCall.contractsInfo.chainId ∧
        validateUserDecryptRequestEIP712Signature (deploymentOf defaultHash)
          sampleCall.verification sampleCall.userAddress sampleCall.signature
          sampleCall.contractsInfo.chainId = .error (.invalidUserSignature sampleCall.signature) := by
  have hempty : hashUserDecryptRequestVerification (deploymentOf defaultHash)
      sampleCall.verification sampleCall.contractsInfo.chainId = emptyHash :=
    hash_deploymentOf defaultHash _ _
  have hstranger : (deploymentOf defaultHash).recover (hashUserDecryptRequestVerification
      (deploymentOf defaultHash) sampleCall.verification sampleCall.contractsInfo.chainId)
        sampleCall.signature = some 41 := by
    rw [hempty]
    simp [deploymentOf, defaultHash_ne.symm]
  refine ⟨signedHash_sample (by decide +kernel), calldata_sample none, ?_, hempty ▸ defaultHash_ne,
    bind_eq_error.mpr (.inr ⟨41, ?_, require_eq_error.mpr ⟨by decide, rfl⟩⟩)⟩
  · simp [deploymentOf]
    rfl
  · rw [mapError_eq_ok, recoverSigner_eq_ok]
    exact hstranger

end Fhevm.Sdk
