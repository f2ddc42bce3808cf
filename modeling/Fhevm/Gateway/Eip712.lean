import Fhevm.Common.Evm
import Fhevm.Host.ACL

/-!
# Typed data of the gateway contracts

Hashes of structured data, as the gateway contracts compute them and signers sign them.

## Main definitions

* `GatewayDeployment` — the hash function, the recovery of signers and the addresses.
* `toTypedDataHash`, `domainSeparator` — the digest of a struct under a domain.
-/

namespace Fhevm.Gateway

open Foundation Host

/-- The cryptographic functions of the chain, and what the contracts know of their deployment.
The recovery of a malformed signature reverts. -/
structure GatewayDeployment where
  keccak256 : Bytes → Bytes32
  recover : Bytes32 → Bytes → Option Address
  chainid : Nat
  gatewayConfigAddress : Address
  decryptionAddress : Address
  inputVerificationAddress : Address

/-- Signatures have 65 bytes: the library recovers no signer from other byte strings. -/
def GatewayDeployment.SignatureSize (D : GatewayDeployment) : Prop :=
  ∀ digest signature a, D.recover digest signature = some a → signature.length = 65

/-- A `uint256` as `abi.encode` writes it. -/
def uintBytes (n : Nat) : Bytes := BigEndian.encode 32 n

/-- An address as `abi.encode` writes it, and as the element of a packed array. -/
def paddedAddress (a : Address) : Bytes := BigEndian.encode 32 a.toNat

def textBytes (text : String) : Bytes := text.toUTF8.toList

def DOMAIN_TYPE : String :=
  "EIP712Domain(string name,string version,uint256 chainId,address verifyingContract)"

section Hashes

variable (keccak256 : Bytes → Bytes32)

def domainEncoding (name version : String) (chainId : Nat) (verifyingContract : Address) : Bytes :=
  wordBytes (keccak256 (textBytes DOMAIN_TYPE)) ++ (wordBytes (keccak256 (textBytes name)) ++
    (wordBytes (keccak256 (textBytes version)) ++
      (uintBytes chainId ++ paddedAddress verifyingContract)))

def domainSeparator (name version : String) (chainId : Nat) (verifyingContract : Address) :
    Bytes32 :=
  keccak256 (domainEncoding keccak256 name version chainId verifyingContract)

def typedDataEncoding (domainSeparator structHash : Bytes32) : Bytes :=
  [0x19, 0x01] ++ (wordBytes domainSeparator ++ wordBytes structHash)

def toTypedDataHash (domainSeparator structHash : Bytes32) : Bytes32 :=
  keccak256 (typedDataEncoding domainSeparator structHash)

end Hashes

@[simp] theorem length_uintBytes (n : Nat) : (uintBytes n).length = 32 :=
  BigEndian.length_encode 32 n

@[simp] theorem length_paddedAddress (a : Address) : (paddedAddress a).length = 32 :=
  BigEndian.length_encode 32 a.toNat

theorem uintBytes_injective {m n : Nat} (hm : m < 2 ^ 256) (hn : n < 2 ^ 256)
    (h : uintBytes m = uintBytes n) : m = n :=
  BigEndian.encode_injective (hm.trans_eq (by norm_num)) (hn.trans_eq (by norm_num)) h

theorem paddedAddress_injective : Function.Injective paddedAddress := by
  intro a b h
  have hlt : ∀ c : Address, c.toNat < 256 ^ 32 := fun c => c.isLt.trans (by norm_num)
  exact BitVec.eq_of_toNat_eq (BigEndian.encode_injective (hlt a) (hlt b) h)

/-- The typed data determines the domain and the struct. -/
theorem typedDataEncoding_injective {d d' h h' : Bytes32}
    (heq : typedDataEncoding d h = typedDataEncoding d' h') : d = d' ∧ h = h' := by
  obtain ⟨hdomain, hstruct⟩ := List.append_inj (List.append_cancel_left heq) (by simp)
  exact ⟨wordBytes_injective hdomain, wordBytes_injective hstruct⟩

/-- Domains that differ in their chain have different encodings. -/
theorem domainEncoding_chainId {keccak256 : Bytes → Bytes32} {name version : String}
    {chainId chainId' : Nat} {a a' : Address} (hc : chainId < 2 ^ 256) (hc' : chainId' < 2 ^ 256)
    (h : domainEncoding keccak256 name version chainId a =
      domainEncoding keccak256 name version chainId' a') : chainId = chainId' ∧ a = a' := by
  have hrest := List.append_cancel_left (List.append_cancel_left (List.append_cancel_left h))
  obtain ⟨hchain, haddress⟩ := List.append_inj hrest (by simp)
  exact ⟨uintBytes_injective hc hc' hchain, paddedAddress_injective haddress⟩

end Fhevm.Gateway
