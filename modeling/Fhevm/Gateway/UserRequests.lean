import Fhevm.Gateway.Materials
import Fhevm.Gateway.Decryption

/-!
# Signed requests of users

What a user's signature binds, and what an accepted request says of the handles that
are decrypted for the user.

## Main definitions

* `requestStrings` — the byte strings hashed for a request.
* `hashUserDecryptRequestVerification_eq_iff` — the digest determines what is signed.
* `RequestBound` — what holds of an accepted request.
* `userDecryptionRequest_bound` — it does, whatever reports the permissions come from.
-/

namespace Fhevm.Gateway

open Foundation Contract Host

/-! ## The digest -/

section Digest

variable (D : GatewayDeployment)

/-- The byte strings that are hashed for a request under a domain. -/
def requestStrings (v : UserDecryptRequestVerification) (contractsChainId : Nat) : List Bytes :=
  [v.publicKey, v.contractAddresses.flatMap paddedAddress, v.extraData, v.encoding D,
    domainEncoding D.keccak256 "Decryption" "1" contractsChainId D.decryptionAddress,
    typedDataEncoding (domainSeparator D.keccak256 "Decryption" "1" contractsChainId
      D.decryptionAddress) (D.keccak256 (v.encoding D))]

/-- The hash has no collision between the corresponding strings of the two requests. -/
def NoCollision (v v' : UserDecryptRequestVerification) (chainId chainId' : Nat) : Prop :=
  List.Forall₂ (fun x y => D.keccak256 x = D.keccak256 y → x = y) (requestStrings D v chainId)
    (requestStrings D v' chainId')

/-- The numbers are words of the EVM. -/
structure UserDecryptRequestVerification.Sized (v : UserDecryptRequestVerification) : Prop where
  startTimestamp : v.startTimestamp < 2 ^ 256
  durationDays : v.durationDays < 2 ^ 256

variable {D} {v v' : UserDecryptRequestVerification} {chainId chainId' : Nat}

/-- The digest determines everything that is signed, the chain of the domain included. -/
theorem hashUserDecryptRequestVerification_eq_iff (hapart : NoCollision D v v' chainId chainId')
    (hv : v.Sized) (hv' : v'.Sized) (hc : chainId < 2 ^ 256) (hc' : chainId' < 2 ^ 256) :
    hashUserDecryptRequestVerification D v chainId =
      hashUserDecryptRequestVerification D v' chainId' ↔ v = v' ∧ chainId = chainId' := by
  constructor
  · intro h
    simp only [NoCollision, requestStrings, List.forall₂_cons, List.forall₂_nil_left_iff,
      and_true] at hapart
    obtain ⟨hkeyApart, hcontractsApart, hextraApart, hstructApart, hdomainApart, htypedApart⟩ :=
      hapart
    obtain ⟨hdomain, hstruct⟩ := typedDataEncoding_injective (htypedApart h)
    have hstruct := hstructApart hstruct
    refine ⟨?_, (domainEncoding_chainId hc hc' (hdomainApart hdomain)).1⟩
    -- the fields of the struct are words, one after the other
    obtain ⟨hkey, hrest⟩ := List.append_inj (List.append_cancel_left hstruct) (by simp)
    obtain ⟨hcontracts, hrest⟩ := List.append_inj hrest (by simp)
    obtain ⟨hstart, hrest⟩ := List.append_inj hrest (by simp)
    obtain ⟨hduration, hextra⟩ := List.append_inj hrest (by simp)
    have hkey := hkeyApart (wordBytes_injective hkey)
    have hextra := hextraApart (wordBytes_injective hextra)
    have hcontracts := hcontractsApart (wordBytes_injective hcontracts)
    have hcontracts := BigEndian.flatMap_injective (by norm_num) length_paddedAddress
      paddedAddress_injective hcontracts
    have hstart := uintBytes_injective hv.startTimestamp hv'.startTimestamp hstart
    have hduration := uintBytes_injective hv.durationDays hv'.durationDays hduration
    cases v
    cases v'
    simp_all
  · rintro ⟨rfl, rfl⟩
    rfl

end Digest

/-! ## Accepted requests -/

/-- What holds of an accepted request, where the permissions come from the reports `calls`. -/
structure RequestBound (D : GatewayDeployment) (calls : List (GatewayTx × AllowCall))
    (r : UserDecryptionRequest) : Prop where
  signed : D.recover (hashUserDecryptRequestVerification D r.verification r.contractsInfo.chainId)
    r.signature = some r.userAddress
  -- no other struct or chain has the digest that the user signed
  covers : ∀ v chainId, NoCollision D v r.verification chainId r.contractsInfo.chainId →
    v.Sized → r.verification.Sized → chainId < 2 ^ 256 → r.contractsInfo.chainId < 2 ^ 256 →
      hashUserDecryptRequestVerification D v chainId =
        hashUserDecryptRequestVerification D r.verification r.contractsInfo.chainId →
          v = r.verification ∧ chainId = r.contractsInfo.chainId
  allowed : ∀ pair ∈ r.ctHandleContractPairs,
    isAccountAllowed D (allowsAfter D calls) pair.ctHandle r.userAddress = true ∧
      isAccountAllowed D (allowsAfter D calls) pair.ctHandle pair.contractAddress = true ∧
        pair.contractAddress ∈ r.verification.contractAddresses
  chain : ∀ pair ∈ r.ctHandleContractPairs,
    KeysApart D calls (.account pair.ctHandle r.userAddress) →
      ∃ i past, Ran calls i past ∧ i.2.target = .account pair.ctHandle r.userAddress ∧
        i.1.config.isHostChainRegistered (extractChainId pair.ctHandle).toNat = true

/-- The user signed the key, the contracts, the period, the extra data and the chain of an
accepted request; every handle is allowed to the user and to a contract of the signed list, and
carries a chain that was registered when a coprocessor allowed it to the user. -/
theorem userDecryptionRequest_bound {D : GatewayDeployment}
    {calls : List (GatewayTx × AllowCall)} {r : UserDecryptionRequest} {env : RequestEnv}
    {s s' : DecryptionStorage} {ev : List DecryptionEvent} (hacl : env.acl = allowsAfter D calls)
    (h : userDecryptionRequest D r env s = .ok (ev, s')) : RequestBound D calls r := by
  obtain ⟨hchecked, -, -⟩ := userDecryptionRequest_ok h
  refine ⟨hchecked.signed, ?_, ?_, ?_⟩
  · intro v chainId hapart hv hr hc hc' heq
    exact (hashUserDecryptRequestVerification_eq_iff hapart hv hr hc hc').mp heq
  · intro pair hpair
    obtain ⟨huser, hcontract, hlisted, -⟩ := hchecked.pairs pair hpair
    exact ⟨hacl ▸ huser, hacl ▸ hcontract, hlisted⟩
  · intro pair hpair hkeys
    have hflag : (allowsAfter D calls).isAllowed
        ((AllowTarget.account pair.ctHandle r.userAddress).key D) = true :=
      hacl ▸ (hchecked.pairs pair hpair).user
    obtain ⟨i, past, hran, hc, htarget, -⟩ := (allowsSettled hkeys).flag.mp hflag
    obtain ⟨o, ho⟩ := hc.call_eq
    have hchain := (allows_ok ho).2.1
    rw [htarget] at hchain
    exact ⟨i, past, hran, htarget, hchain⟩

/-! ## A handle of another chain -/

/-- A user and a contract are allowed a boolean of chain 1. -/
def foreignAllows : List (GatewayTx × AllowCall) :=
  [(⟨30, oneCoprocessor⟩, ⟨.account (1 <<< 16) 40, []⟩),
    (⟨30, oneCoprocessor⟩, ⟨.account (1 <<< 16) 8, []⟩)]

def foreignEnv : RequestEnv where
  acl := allowsAfter sampleDeployment foreignAllows
  commits := commitsAfter sampleDeployment [(⟨30, oneCoprocessor⟩, ⟨1 <<< 16, 1, 2, 3⟩)]
  timestamp := 100
  feeCollected := true

/-- The user signs for contracts of chain 7. -/
def foreignRequest : UserDecryptionRequest where
  ctHandleContractPairs := [⟨1 <<< 16, 8⟩]
  requestValidity := ⟨100, 1⟩
  contractsInfo := ⟨7, [8]⟩
  userAddress := 40
  publicKey := [1]
  signature := [2]
  extraData := []

theorem foreignRequest_accepted :
    ¬ ∀ (D : GatewayDeployment) (calls : List (GatewayTx × AllowCall)) (r : UserDecryptionRequest)
      (env : RequestEnv) (s : DecryptionStorage), env.acl = allowsAfter D calls →
        (userDecryptionRequest D r env s).isOk = true → ∀ pair ∈ r.ctHandleContractPairs,
          (extractChainId pair.ctHandle).toNat = r.contractsInfo.chainId := by
  intro h
  have hchain := h sampleDeployment foreignAllows foreignRequest foreignEnv .init
    (by simp only [foreignEnv]) (by decide +kernel) ⟨1 <<< 16, 8⟩ (by simp [foreignRequest])
  exact absurd hchain (by decide +kernel)

theorem foreignRequest_bound : RequestBound sampleDeployment foreignAllows foreignRequest := by
  obtain ⟨⟨ev, s'⟩, h⟩ := exists_of_isOk
    (show (userDecryptionRequest sampleDeployment foreignRequest foreignEnv .init).isOk = true by
      decide +kernel)
  exact userDecryptionRequest_bound (by simp only [foreignEnv]) h

end Fhevm.Gateway
