import Fhevm.Gateway.RequestConditions
import Fhevm.Sdk.SignedRequests

/-!
# Requests that the SDK builds

Two builders of the SDK collect the handles of a request for a decryption. They check some of what
the gateway checks of a request, and leave the rest to the gateway.

## Main definitions

* `PublicDecryptRequestBuilder` — the builder of requests for public decryptions.
* `UserBuilderCall`, `PublicBuilderCall` — sequences of calls of the two builders.
* `UserRequestBuilt` — what is checked of the request of a user.
* `requests_built` — what the gateway refuses the built requests for.
-/

namespace Fhevm.Sdk

open Foundation Contract Gateway Host

/-! ## Public requests -/

structure PublicDecryptRequest where
  ctHandles : List Bytes32
deriving DecidableEq, Repr

structure PublicDecryptRequestBuilder where
  ctHandles : List Bytes32
deriving DecidableEq, Repr

def MAX_HANDLES : Nat := 256

def validateHandlesCount (count : Nat) : SdkResult Unit :=
  require (¬ count > MAX_HANDLES) (.invalidParams
    ("Maximum " ++ toString MAX_HANDLES ++
      " handles allowed in a single public decryption request"))

def validateHandles (handles : List Bytes) : SdkResult Unit := do
  require (handles ≠ []) (.invalidParams "At least one ciphertext handle is required")
  validateHandlesCount handles.length

/-- A handle at its index, which must have 32 bytes as for users. -/
def handleWord (handle : Bytes × Nat) : SdkResult Bytes32 := do
  validateHandleSize handle.1 handle.2
  return BitVec.ofNat 256 (BigEndian.decode handle.1)

namespace PublicDecryptRequestBuilder

def new : PublicDecryptRequestBuilder := ⟨[]⟩

variable (b : PublicDecryptRequestBuilder)

def withHandlesFromBytes (handles : List Bytes) : SdkResult PublicDecryptRequestBuilder := do
  validateHandles handles
  let words ← handles.zipIdx.mapM handleWord
  return ⟨b.ctHandles ++ words⟩

def withHandlesFromHex (hexHandles : List String) : SdkResult PublicDecryptRequestBuilder := do
  validateHandlesCount hexHandles.length
  let words ← hexHandles.zipIdx.mapM fun hexHandle => do
    let handleBytes ← parseHexString hexHandle.1 ("handle " ++ toString hexHandle.2)
    handleWord (handleBytes, hexHandle.2)
  return ⟨b.ctHandles ++ words⟩

def withHandle (handle : Bytes) : SdkResult PublicDecryptRequestBuilder := do
  let word ← handleWord (handle, 0)
  return ⟨b.ctHandles ++ [word]⟩

def withHandlesCleared (_ : PublicDecryptRequestBuilder) : PublicDecryptRequestBuilder := ⟨[]⟩

/-- `build`, with `validate` -/
def build : SdkResult PublicDecryptRequest := do
  require (b.ctHandles ≠ []) (.invalidParams
    "Missing handles: Call `with_handles_from_bytes()` or `with_handles_from_hex()` first.")
  require (¬ b.ctHandles.length > 256)
    (.invalidParams "Maximum 256 handles allowed in a single public decryption request")
  return ⟨b.ctHandles⟩

end PublicDecryptRequestBuilder

inductive PublicBuilderCall
  | withHandlesFromBytes (handles : List Bytes)
  | withHandlesFromHex (hexHandles : List String)
  | withHandle (handle : Bytes)
  | withHandlesCleared
deriving DecidableEq, Repr

def PublicBuilderCall.run (b : PublicDecryptRequestBuilder) :
    PublicBuilderCall → SdkResult PublicDecryptRequestBuilder
  | .withHandlesFromBytes handles => b.withHandlesFromBytes handles
  | .withHandlesFromHex hexHandles => b.withHandlesFromHex hexHandles
  | .withHandle handle => b.withHandle handle
  | .withHandlesCleared => .ok b.withHandlesCleared

/-! ## Requests of users -/

inductive UserBuilderCall
  | withHandlesFromBytes (handles : List Bytes) (contractAddresses : List Address)
  | withUserAddress (address : Address)
  | withSignatureFromHex (signature : String)
  | withPublicKeyFromHex (publicKey : String)
  | withValidity (startTimestamp durationDays : UInt64)
  | withContractsChainId (chainId : UInt64)
deriving DecidableEq, Repr

def UserBuilderCall.run (b : UserDecryptRequestBuilder) :
    UserBuilderCall → SdkResult UserDecryptRequestBuilder
  | .withHandlesFromBytes handles contractAddresses =>
    b.withHandlesFromBytes handles contractAddresses
  | .withUserAddress address => b.withUserAddress address
  | .withSignatureFromHex signature => b.withSignatureFromHex signature
  | .withPublicKeyFromHex publicKey => b.withPublicKeyFromHex publicKey
  | .withValidity startTimestamp durationDays => b.withValidity startTimestamp durationDays
  | .withContractsChainId chainId => .ok (b.withContractsChainId chainId)

/-- The contract of each handle is kept. -/
def UserDecryptRequestBuilder.Listed (b : UserDecryptRequestBuilder) : Prop :=
  ∀ pair ∈ b.ctHandleContractPairs, pair.contractAddress ∈ b.contractAddresses

section Users

variable {b b' : UserDecryptRequestBuilder}

theorem mem_foldl_addContract {a : Address} {kept as : List Address} :
    a ∈ as.foldl addContract kept ↔ a ∈ kept ∨ a ∈ as := by
  induction as generalizing kept with
  | nil => simp
  | cons first as ih =>
    have hadd : a ∈ addContract kept first ↔ a ∈ kept ∨ a = first := by
      unfold addContract
      split_ifs <;> grind
    rw [List.foldl_cons, ih, hadd, List.mem_cons, or_assoc]

/-- The handles are paired with contracts that are given with them. -/
theorem contract_of_mem_pairHandles {contractAddresses : List Address}
    (hne : contractAddresses ≠ []) {handles : List Bytes} {i : Nat}
    {pairs : List CtHandleContractPair}
    (h : pairHandles contractAddresses handles i = .ok pairs) :
    ∀ pair ∈ pairs, pair.contractAddress ∈ contractAddresses := by
  induction handles generalizing i pairs with
  | nil =>
    cases h
    exact fun _ hmem => nomatch hmem
  | cons handle handles ih =>
    simp only [pairHandles, bind_eq_ok, pure_eq_ok] at h
    obtain ⟨_, -, rest, hrest, rfl⟩ := h
    intro pair hpair
    rcases List.mem_cons.mp hpair with rfl | hpair
    · have hlt : i % contractAddresses.length < contractAddresses.length :=
        Nat.mod_lt _ (List.length_pos_iff.mpr hne)
      simp only [List.getD_eq_getElem?_getD, List.getElem?_eq_getElem hlt, Option.getD_some]
      exact List.getElem_mem hlt
    · exact ih hrest pair hpair

theorem listed_run {call : UserBuilderCall} (hb : b.Listed) (h : call.run b = .ok b') :
    b'.Listed := by
  cases call with
  | withHandlesFromBytes handles contractAddresses =>
    simp only [UserBuilderCall.run, UserDecryptRequestBuilder.withHandlesFromBytes,
      validateHandlesInput, bind_eq_ok, require_eq_ok, pure_eq_ok] at h
    obtain ⟨_, ⟨_, -, _, hne, -⟩, pairs, hpairs, rfl⟩ := h
    intro pair hpair
    rw [mem_foldl_addContract]
    obtain hold | hnew := List.mem_append.mp hpair
    · exact .inl (hb pair hold)
    · exact .inr (contract_of_mem_pairHandles hne hpairs pair hnew)
  | withUserAddress address =>
    simp only [UserBuilderCall.run, UserDecryptRequestBuilder.withUserAddress, bind_eq_ok,
      pure_eq_ok] at h
    obtain ⟨_, -, rfl⟩ := h
    exact hb
  | withSignatureFromHex signature =>
    simp only [UserBuilderCall.run, UserDecryptRequestBuilder.withSignatureFromHex, bind_eq_ok,
      pure_eq_ok] at h
    obtain ⟨_, -, _, -, rfl⟩ := h
    exact hb
  | withPublicKeyFromHex publicKey =>
    simp only [UserBuilderCall.run, UserDecryptRequestBuilder.withPublicKeyFromHex, bind_eq_ok,
      pure_eq_ok] at h
    obtain ⟨_, -, _, -, rfl⟩ := h
    exact hb
  | withValidity startTimestamp durationDays =>
    simp only [UserBuilderCall.run, UserDecryptRequestBuilder.withValidity, bind_eq_ok,
      pure_eq_ok] at h
    obtain ⟨_, -, rfl⟩ := h
    exact hb
  | withContractsChainId chainId =>
    obtain rfl := Except.ok.inj h
    exact hb

theorem listed_of_calls {calls : List UserBuilderCall} (hb : b.Listed)
    (h : calls.foldlM UserBuilderCall.run b = .ok b') : b'.Listed :=
  foldlM_invariant (fun _ _ _ hb hcall => listed_run hb hcall) hb h

/-- What the builder checks of the request of a user. -/
structure UserRequestBuilt (r : UserDecryptionRequest) : Prop where
  handles : r.ctHandleContractPairs ≠ []
  contracts : r.contractsInfo.addresses ≠ []
  listed : ∀ pair ∈ r.ctHandleContractPairs, pair.contractAddress ∈ r.contractsInfo.addresses
  days : r.requestValidity.durationDays ≠ 0 ∧
    r.requestValidity.durationDays ≤ MAX_USER_DECRYPT_DURATION_DAYS

/-- What the builder leaves to the gateway: the user, and the bits. -/
def UserRequestLeft (r : UserDecryptionRequest) : Prop :=
  r.userAddress ∉ r.contractsInfo.addresses ∧
    WithinBits (r.ctHandleContractPairs.map CtHandleContractPair.ctHandle)

theorem userRequestBuilt {request : UserDecryptRequest} {contractsChainId : UInt64}
    (hlisted : b.Listed) (h : b.build = .ok request) :
    UserRequestBuilt (userDecryptionReq request contractsChainId) := by
  simp only [UserDecryptRequestBuilder.build, bind_eq_ok, require_eq_ok, required_eq_ok,
    pure_eq_ok] at h
  obtain ⟨_, hne, user, -, signature, -, publicKey, -, start, -, days, -, _, hdays, _, -, rfl⟩ := h
  refine ⟨hne, ?_, hlisted, ?_⟩
  · obtain ⟨pair, hpair⟩ := List.exists_mem_of_ne_nil _ hne
    exact List.ne_nil_of_mem (hlisted pair hpair)
  · obtain ⟨hzero, hmax⟩ := not_or.mp hdays
    have hle : days.toNat ≤ 365 := UInt64.le_iff_toNat_le.mp (UInt64.not_lt.mp hmax)
    exact ⟨fun hnat => hzero (UInt64.toNat_inj.mp hnat), hle⟩

theorem UserRequestBuilt.conditions_iff {r : UserDecryptionRequest} (h : UserRequestBuilt r)
    (hmax : r.contractsInfo.addresses.length ≤ MAX_USER_DECRYPT_CONTRACT_ADDRESSES) :
    UserConditions r ↔ UserRequestLeft r :=
  ⟨fun hc => ⟨hc.userApart, hc.bits⟩, fun hleft =>
    ⟨h.handles, h.contracts, hmax, h.listed, hleft.1, h.days, hleft.2⟩⟩

end Users

/-- Every request that is built has handles, and a request of a user has contracts with those of the
handles among them and a valid number of days. As long as there are not too many contracts, the
gateway refuses the request of a user only if the user is one of the contracts or there are too many
bits, and a request for a public decryption only if there are too many bits. -/
theorem requests_built (D : GatewayDeployment) :
    (∀ (calls : List UserBuilderCall) (b : UserDecryptRequestBuilder) (request : UserDecryptRequest)
      (contractsChainId : UInt64),
      calls.foldlM UserBuilderCall.run UserDecryptRequestBuilder.new = .ok b →
      b.build = .ok request → ∀ r, r = userDecryptionReq request contractsChainId →
        UserRequestBuilt r ∧
        (r.contractsInfo.addresses.length ≤ MAX_USER_DECRYPT_CONTRACT_ADDRESSES →
          (UserRequestLeft r → ∀ env s e,
            userDecryptionRequest D r env s = .error e → e.ofRequest = false) ∧
          (¬ UserRequestLeft r → ∀ env s out, userDecryptionRequest D r env s ≠ .ok out))) ∧
    ∀ (calls : List PublicBuilderCall) (b : PublicDecryptRequestBuilder)
      (request : PublicDecryptRequest),
      calls.foldlM PublicBuilderCall.run PublicDecryptRequestBuilder.new = .ok b →
      b.build = .ok request →
        request.ctHandles ≠ [] ∧ request.ctHandles.length ≤ 256 ∧
        (WithinBits request.ctHandles → ∀ extraData env s e,
          publicDecryptionRequest request.ctHandles extraData env s = .error e →
            e.ofRequest = false) ∧
        (¬ WithinBits request.ctHandles → ∀ extraData env s out,
          publicDecryptionRequest request.ctHandles extraData env s ≠ .ok out) := by
  constructor
  · rintro calls b request contractsChainId hcalls hbuild r rfl
    have hnew : UserDecryptRequestBuilder.new.Listed := fun _ hmem => nomatch hmem
    have hbuilt : UserRequestBuilt (userDecryptionReq request contractsChainId) :=
      userRequestBuilt (listed_of_calls hnew hcalls) hbuild
    refine ⟨hbuilt, fun hmax => ⟨fun hleft env s e herror => ?_, fun hleft env s out hok => ?_⟩⟩
    · exact ((hbuilt.conditions_iff hmax).mpr hleft).not_refused herror
    · exact hleft ((hbuilt.conditions_iff hmax).mp (.of_accepted hok))
  · intro calls b request hcalls hbuild
    simp only [PublicDecryptRequestBuilder.build, bind_eq_ok, require_eq_ok, pure_eq_ok] at hbuild
    obtain ⟨_, hne, _, hmax, rfl⟩ := hbuild
    refine ⟨hne, Nat.not_lt.mp hmax, fun hbits extraData env s e herror => ?_,
      fun hbits extraData env s out hok => hbits (PublicConditions.of_accepted hok).bits⟩
    exact PublicConditions.not_refused ⟨hne, hbits⟩ herror

/-! ## Samples -/

/-- The calls of a user behind those for the handles. -/
def sampleUserCalls : List UserBuilderCall :=
  [.withUserAddress 40, .withSignatureFromHex sampleSignature,
    .withPublicKeyFromHex (sampleRequest none).publicKey, .withValidity 100 1]

theorem sampleUserCalls_ok (b : UserDecryptRequestBuilder) :
    sampleUserCalls.foldlM UserBuilderCall.run b =
      .ok { b with
        userAddress := some 40
        signature := some (List.replicate 65 0)
        publicKey := some sampleCall.publicKey
        startTimestamp := some 100
        durationDays := some 1 } := by
  refine bind_eq_ok.mpr ⟨{ b with userAddress := some 40 }, rfl, bind_eq_ok.mpr ⟨_,
    bind_eq_ok.mpr ⟨_, parse_sampleSignature _, rfl⟩, bind_eq_ok.mpr ⟨_,
      bind_eq_ok.mpr ⟨_, parse_samplePublicKey, rfl⟩, rfl⟩⟩⟩

/-- The request of a user for a boolean, with the contracts that are given. -/
def sampleUserRequest (contractAddresses : List Address) : UserDecryptRequest where
  ctHandleContractPairs := [⟨1 <<< 16, contractAddresses.getD 0 0⟩]
  requestValidity := ⟨100, 1⟩
  contractAddresses := contractAddresses
  userAddress := 40
  signature := List.replicate 65 0
  publicKey := sampleCall.publicKey

def sampleHandle (type : UInt8) : Bytes := List.replicate 29 0 ++ [1, type, 0]

theorem sampleUserRequest_built (contract : Address) : ∃ b,
    (UserBuilderCall.withHandlesFromBytes [sampleHandle 0] [contract] :: sampleUserCalls).foldlM
        UserBuilderCall.run UserDecryptRequestBuilder.new = .ok b ∧
      b.build = .ok (sampleUserRequest [contract]) := by
  refine ⟨_, bind_eq_ok.mpr ⟨_, rfl, sampleUserCalls_ok _⟩, ?_⟩
  rfl

/-- A boolean with one contract, and a public request for an integer of 8 bits. -/
theorem sampleRequests_built :
    UserRequestBuilt (userDecryptionReq (sampleUserRequest [8]) 1) ∧
      ∀ extraData env s e, publicDecryptionRequest [0x010200] extraData env s = .error e →
        e.ofRequest = false := by
  obtain ⟨b, hcalls, hbuild⟩ := sampleUserRequest_built 8
  have hpublic := (requests_built (deploymentOf 0)).2
    [.withHandlesFromBytes [sampleHandle 2]] ⟨[0x010200]⟩ ⟨[0x010200]⟩ rfl rfl
  refine ⟨((requests_built (deploymentOf 0)).1 _ b _ 1 hcalls hbuild _ rfl).1,
    hpublic.2.2.1 fun sizes hsizes => ?_⟩
  obtain rfl : [8] = sizes := Except.ok.inj hsizes
  decide

/-- The user may be one of the contracts, and nine integers of 256 bits are too many. -/
theorem sampleRequests_refused :
    (¬ ∀ (calls : List UserBuilderCall) (b : UserDecryptRequestBuilder)
        (request : UserDecryptRequest) (contractsChainId : UInt64),
      calls.foldlM UserBuilderCall.run UserDecryptRequestBuilder.new = .ok b →
      b.build = .ok request → UserConditions (userDecryptionReq request contractsChainId)) ∧
    ¬ ∀ (calls : List PublicBuilderCall) (b : PublicDecryptRequestBuilder)
        (request : PublicDecryptRequest),
      calls.foldlM PublicBuilderCall.run PublicDecryptRequestBuilder.new = .ok b →
      b.build = .ok request → PublicConditions request.ctHandles := by
  constructor
  · intro h
    obtain ⟨b, hcalls, hbuild⟩ := sampleUserRequest_built 40
    exact (h _ b _ 1 hcalls hbuild).userApart List.mem_cons_self
  · intro h
    have hbits := (h [.withHandlesFromBytes (List.replicate 9 (sampleHandle 8))]
      ⟨List.replicate 9 0x010800⟩ ⟨List.replicate 9 0x010800⟩ rfl rfl).bits
    exact absurd (hbits (List.replicate 9 256) rfl) (by decide)

end Fhevm.Sdk
