import Fhevm.Gateway.GatewayConfig

/-!
# Ballots of operators

The consensus contracts count ballots: an operator that is registered when it sends its
transaction votes on a topic, at most once for each request.

## Main definitions

* `GatewayTx` — the sender of a call and the configuration it meets.
* `Ballot` — an accepted vote.
* `Quorum` — enough ballots of distinct voters, each of whom could vote.
* `Decided` — the ballots that are counted are a quorum.
* `Ballot.share` — the part that a component takes in a ballot of a system.
* `Quorum.card_senders` — a quorum whose voters can still vote has as many distinct senders.
-/

namespace Fhevm.Gateway

open Foundation

/-- The sender of a call and the gateway configuration at that time. -/
structure GatewayTx where
  sender : Address
  config : GatewayConfigStorage

/-- An accepted vote, with the configuration that it met. The voter is the address that is kept
from voting again: a signer, or the sender itself where nothing is signed. -/
structure Ballot (κ γ : Type) where
  topic : κ
  voter : Address
  sender : Address
  config : γ
  signature : Bytes

/-- The sender is registered with the signer. -/
def Registry.Enrolled (r : Registry) (operator : Address × Address) : Prop :=
  r.isTxSender operator.1 = true ∧ (r.operators operator.1).signerAddress = operator.2

/-- The sender is registered, and votes under its own address. -/
def Registry.Listed (r : Registry) (operator : Address × Address) : Prop :=
  r.isTxSender operator.1 = true ∧ operator.1 = operator.2

/-- The ballots meet the threshold, their voters are distinct, and each could vote under the
configuration that it met. -/
structure Quorum {κ γ : Type} (able : γ → Address × Address → Prop) (threshold : Nat)
    (ballots : List (Ballot κ γ)) : Prop where
  met : threshold ≤ ballots.length
  distinct : (ballots.map Ballot.voter).Nodup
  able : ∀ v ∈ ballots, able v.config (v.sender, v.voter)

namespace Quorum

variable {κ γ : Type} {able : γ → Address × Address → Prop} {threshold : Nat}
  {ballots : List (Ballot κ γ)}

/-- The distinct voters of a quorum. -/
theorem card_voters (h : Quorum able threshold ballots) :
    threshold ≤ (ballots.map Ballot.voter).toFinset.card := by
  rw [List.toFinset_card_of_nodup h.distinct, List.length_map]
  exact h.met

/-- Where a sender has one voter, distinct voters that could all vote at one time have distinct
senders. -/
theorem card_senders (h : Quorum able threshold ballots) (now : Address × Address → Prop)
    (hone : ∀ sender voter voter', now (sender, voter) → now (sender, voter') → voter = voter')
    (hnow : ∀ v ∈ ballots, now (v.sender, v.voter)) :
    threshold ≤ (ballots.map Ballot.sender).toFinset.card := by
  have hsenders : (ballots.map Ballot.sender).Nodup := by
    refine List.Nodup.map_on (fun v hv w hw hsame => ?_) (List.Nodup.of_map _ h.distinct)
    have hvoter : v.voter = w.voter := hone v.sender _ _ (hnow v hv) (hsame ▸ hnow w hw)
    exact List.inj_on_of_nodup_map h.distinct hv hw hvoter
  rw [List.toFinset_card_of_nodup hsenders, List.length_map]
  exact h.met

end Quorum

/-- A quorum of the ballots whose senders and signatures are those that are counted. -/
def Decided {κ γ : Type} (able : γ → Address × Address → Prop) (threshold : Nat)
    (votes : List (Ballot κ γ)) (counted : List Address → List Bytes → Prop) : Prop :=
  ∃ ballots, ballots ⊆ votes ∧ counted (ballots.map Ballot.sender) (ballots.map Ballot.signature) ∧
    Quorum able threshold ballots

/-! ## Ballots of a system and of its components -/

section Shares

variable {κ κ' γ γ' : Type} {topic : κ → Option κ'} {view : γ → γ'}

/-- The ballot on another topic, with another view of the configuration. -/
def Ballot.lift (topicOf : κ → κ') (config : γ') (b : Ballot κ γ) : Ballot κ' γ' :=
  ⟨topicOf b.topic, b.voter, b.sender, config, b.signature⟩

/-- What a component makes of a ballot of the system, if the topic is one of its own. -/
def Ballot.share (topic : κ → Option κ') (view : γ → γ') (b : Ballot κ γ) :
    Option (Ballot κ' γ') :=
  (topic b.topic).map fun t => b.lift (fun _ => t) (view b.config)

theorem Ballot.share_eq_some {b : Ballot κ γ} {b' : Ballot κ' γ'}
    (h : b.share topic view = some b') : b'.voter = b.voter ∧ b'.sender = b.sender ∧
      b'.config = view b.config ∧ b'.signature = b.signature := by
  obtain ⟨t, -, rfl⟩ := Option.map_eq_some_iff.mp h
  exact ⟨rfl, rfl, rfl, rfl⟩

/-- Ballots of the component are shares of ballots of the system. -/
theorem Ballot.exists_shared {votes : List (Ballot κ γ)} {ballots : List (Ballot κ' γ')}
    (h : ballots ⊆ votes.filterMap (Ballot.share topic view)) :
    ∃ shared, shared ⊆ votes ∧ shared.map (Ballot.share topic view) = ballots.map some := by
  induction ballots with
  | nil => exact ⟨[], List.nil_subset _, rfl⟩
  | cons b' ballots ih =>
    obtain ⟨hb', hrest⟩ := List.cons_subset.mp h
    obtain ⟨b, hb, hshare⟩ := List.mem_filterMap.mp hb'
    obtain ⟨shared, hsub, hall⟩ := ih hrest
    exact ⟨b :: shared, List.cons_subset.mpr ⟨hb, hsub⟩, by simp [hshare, hall]⟩

theorem Ballot.map_eq_of_shared {shared : List (Ballot κ γ)} {ballots : List (Ballot κ' γ')}
    {α : Type} {f : Ballot κ γ → α} {f' : Ballot κ' γ' → α}
    (hall : shared.map (Ballot.share topic view) = ballots.map some)
    (h : ∀ b b', b.share topic view = some b' → f' b' = f b) : ballots.map f' = shared.map f := by
  induction shared generalizing ballots with
  | nil =>
    obtain rfl : ballots = [] := by simpa using hall.symm
    rfl
  | cons b shared ih =>
    cases ballots with
    | nil => cases hall
    | cons b' ballots =>
      obtain ⟨hshare, hrest⟩ := List.cons.inj hall
      rw [List.map_cons, List.map_cons, ih hrest, h _ _ hshare]

/-- What the component has decided, the ballots of the system have decided. -/
theorem Decided.of_share {able : γ' → Address × Address → Prop} {threshold : Nat}
    {votes : List (Ballot κ γ)} {counted : List Address → List Bytes → Prop}
    (h : Decided able threshold (votes.filterMap (Ballot.share topic view)) counted) :
    Decided (fun config => able (view config)) threshold votes counted := by
  obtain ⟨ballots, hsub, hcounted, hquorum⟩ := h
  obtain ⟨shared, hshared, hall⟩ := Ballot.exists_shared hsub
  have hvoters : ballots.map Ballot.voter = shared.map Ballot.voter :=
    Ballot.map_eq_of_shared hall fun b b' h => (Ballot.share_eq_some h).1
  have hsenders : ballots.map Ballot.sender = shared.map Ballot.sender :=
    Ballot.map_eq_of_shared hall fun b b' h => (Ballot.share_eq_some h).2.1
  have hsignatures : ballots.map Ballot.signature = shared.map Ballot.signature :=
    Ballot.map_eq_of_shared hall fun b b' h => (Ballot.share_eq_some h).2.2.2
  refine ⟨shared, hshared, ?_, ⟨?_, ?_, fun b hb => ?_⟩⟩
  · rwa [← hsenders, ← hsignatures]
  · rw [← List.length_map Ballot.voter, ← hvoters, List.length_map]
    exact hquorum.met
  · rw [← hvoters]
    exact hquorum.distinct
  · obtain ⟨b', hb', hshare⟩ := List.mem_map.mp (hall ▸ List.mem_map_of_mem hb)
    obtain ⟨hvoter, hsender, hconfig, -⟩ := Ballot.share_eq_some hshare.symm
    have hable := hquorum.able b' hb'
    rwa [hvoter, hsender, hconfig] at hable

end Shares

theorem Registry.Enrolled.one {r : Registry} (sender voter voter' : Address)
    (h : r.Enrolled (sender, voter)) (h' : r.Enrolled (sender, voter')) : voter = voter' :=
  h.2.symm.trans h'.2

theorem Registry.Listed.one {r : Registry} (sender voter voter' : Address)
    (h : r.Listed (sender, voter)) (h' : r.Listed (sender, voter')) : voter = voter' :=
  h.2.symm.trans h'.2

end Fhevm.Gateway
