import Fhevm.Foundation.Contract

/-!
# A set of hashes in a store of words

A set is kept in a store of words by the value `1` at each member. So that it can
be cleared, the members are also listed: slot `0` holds their number and the slots
from `1` on hold them in the order they were recorded. Members and list share one
address space; they do not meet as long as all members are large numbers.

## Main definitions

* `record`, `contains`, `clear` — the operations.
* `Holds` — the store represents the list of members.
* `Within` — a bound on the slots in use, also where members meet the list.
* `AllListed` — every member is in the list.
* `Exact` — the store holds the members and the list, and nothing else.
* `Change` — what a call may do with the store.
* `exec_exact` — the store after a run.
-/

namespace Foundation.TransientSet

variable {w : Nat}

/-- A store of words, zero where nothing was written. -/
abbrev Store (w : Nat) := BitVec w → BitVec w

def empty : Store w := fun _ => 0

def record (key : BitVec w) (t : Store w) : Store w :=
  let t := Function.update t key 1
  let length := t 0
  let lengthPlusOne := length + 1
  Function.update (Function.update t lengthPlusOne key) 0 lengthPlusOne

def contains (key : BitVec w) (t : Store w) : Bool := t key != 0

/-- One round of the clearing loop: the slot of the entry and the entry itself. -/
def clearEntry (t : Store w) (i : Nat) : Store w :=
  let slot := BitVec.ofNat w (i + 1)
  let key := t slot
  Function.update (Function.update t slot 0) key 0

def clear (t : Store w) : Store w :=
  (List.range (t 0).toNat).foldl clearEntry (Function.update t 0 0)

/-- The store represents the list of members; the numbers below `bound` are slots. -/
structure Holds (bound : Nat) (t : Store w) (keys : List (BitVec w)) : Prop where
  fits : bound ≤ 2 ^ w
  length_lt : keys.length < bound
  count : t 0 = BitVec.ofNat w keys.length
  entry : ∀ i (hi : i < keys.length), t (BitVec.ofNat w (i + 1)) = keys[i]
  large : ∀ key ∈ keys, bound ≤ key.toNat
  member : ∀ key : BitVec w, bound ≤ key.toNat → (t key ≠ 0 ↔ key ∈ keys)

theorem holds_empty {bound : Nat} (hfits : bound ≤ 2 ^ w) (hpos : 0 < bound) :
    Holds bound (empty : Store w) [] :=
  ⟨hfits, hpos, rfl, by simp, by simp, by simp [empty]⟩

section Slots

variable {bound : Nat}

theorem toNat_slot {i : Nat} (hi : i < bound) (hfits : bound ≤ 2 ^ w) :
    (BitVec.ofNat w i).toNat = i := by
  rw [BitVec.toNat_ofNat, Nat.mod_eq_of_lt (by omega)]

theorem slot_injective {i j : Nat} (hi : i < bound) (hj : j < bound) (hfits : bound ≤ 2 ^ w)
    (h : BitVec.ofNat w i = BitVec.ofNat w j) : i = j := by
  have := congrArg BitVec.toNat h
  rwa [toNat_slot hi hfits, toNat_slot hj hfits] at this

theorem slot_ne_large {i : Nat} {key : BitVec w} (hi : i < bound) (hkey : bound ≤ key.toNat)
    (hfits : bound ≤ 2 ^ w) : BitVec.ofNat w i ≠ key := by
  rintro rfl
  rw [toNat_slot hi hfits] at hkey
  omega

end Slots

theorem Holds.contains_iff {bound : Nat} {t : Store w} {keys : List (BitVec w)}
    (h : Holds bound t keys) {key : BitVec w} (hkey : bound ≤ key.toNat) :
    contains key t = true ↔ key ∈ keys := by
  rw [← h.member key hkey]
  simp [contains]

/-- A further member is appended to the list. -/
theorem holds_record {bound : Nat} {t : Store w} {keys : List (BitVec w)}
    (h : Holds bound t keys) {key : BitVec w} (hkey : bound ≤ key.toNat)
    (hlength : keys.length + 1 < bound) : Holds bound (record key t) (keys ++ [key]) := by
  have hzero : (0 : BitVec w) = BitVec.ofNat w 0 := rfl
  have hone : (1 : BitVec w) ≠ 0 := by
    intro hone
    have h1 : BitVec.ofNat w 1 = BitVec.ofNat w 0 := hone
    have := slot_injective (by omega) (by omega) h.fits h1
    omega
  have hcount : Function.update t key 1 0 + 1 = BitVec.ofNat w (keys.length + 1) := by
    rw [hzero, Function.update_of_ne (slot_ne_large (by omega) hkey h.fits), ← hzero, h.count]
    exact (BitVec.ofNat_add keys.length 1).symm
  refine ⟨h.fits, by simpa using hlength, ?_, ?_, ?_, ?_⟩
  · simp only [record, hcount, Function.update_self, List.length_append, List.length_singleton]
  · intro i hi
    have hi' : i < keys.length + 1 := by simpa using hi
    have hne0 : BitVec.ofNat w (i + 1) ≠ 0 := by
      rw [hzero]
      intro h0
      have := slot_injective (by omega) (by omega) h.fits h0
      omega
    simp only [record, hcount]
    rw [Function.update_of_ne hne0]
    by_cases hlast : i = keys.length
    · subst hlast
      simp
    · have hne : BitVec.ofNat w (i + 1) ≠ BitVec.ofNat w (keys.length + 1) := by
        intro heq
        have := slot_injective (by omega) (by omega) h.fits heq
        omega
      have hlt : i < keys.length := by omega
      rw [Function.update_of_ne hne,
        Function.update_of_ne (slot_ne_large (by omega) hkey h.fits), h.entry i hlt,
        List.getElem_append_left hlt]
  · intro k hk
    rcases List.mem_append.mp hk with hk | hk
    · exact h.large k hk
    · exact (List.mem_singleton.mp hk) ▸ hkey
  · intro k hk
    have hne0 : k ≠ 0 := by
      rw [hzero]
      exact (slot_ne_large (by omega) hk h.fits).symm
    have hne1 : k ≠ BitVec.ofNat w (keys.length + 1) := (slot_ne_large (by omega) hk h.fits).symm
    simp only [record, hcount]
    rw [Function.update_of_ne hne0, Function.update_of_ne hne1]
    by_cases hkk : k = key
    · subst hkk
      rw [Function.update_self]
      exact iff_of_true hone (by simp)
    · rw [Function.update_of_ne hkk, h.member k hk]
      simp [hkk]

/-- The store during the clearing loop, after `n` rounds. -/
structure Clearing (bound : Nat) (keys : List (BitVec w)) (n : Nat) (t : Store w) : Prop where
  count : t 0 = 0
  entry : ∀ i (hi : i < keys.length), n ≤ i → t (BitVec.ofNat w (i + 1)) = keys[i]
  member : ∀ key : BitVec w, bound ≤ key.toNat → (t key ≠ 0 ↔ key ∈ keys ∧ key ∉ keys.take n)

theorem clearing_step {bound n : Nat} {t₀ t : Store w} {keys : List (BitVec w)}
    (h : Holds bound t₀ keys) (hn : n < keys.length) (hc : Clearing bound keys n t) :
    Clearing bound keys (n + 1) (clearEntry t n) := by
  have hzero : (0 : BitVec w) = BitVec.ofNat w 0 := rfl
  have hlength := h.length_lt
  have hkey := h.entry n hn
  have hlarge := h.large keys[n] (List.getElem_mem hn)
  simp only [clearEntry, hc.entry n hn le_rfl]
  refine ⟨?_, ?_, ?_⟩
  · rw [hzero, Function.update_of_ne (slot_ne_large (by omega) hlarge h.fits)]
    by_cases heq : BitVec.ofNat w 0 = BitVec.ofNat w (n + 1)
    · rw [heq, Function.update_self]
    · rw [Function.update_of_ne heq]
      exact hc.count
  · intro i hi hni
    have hne : BitVec.ofNat w (i + 1) ≠ BitVec.ofNat w (n + 1) := by
      intro heq
      have := slot_injective (by omega) (by omega) h.fits heq
      omega
    rw [Function.update_of_ne (slot_ne_large (by omega) hlarge h.fits), Function.update_of_ne hne]
    exact hc.entry i hi (by omega)
  · intro k hk
    have hne : k ≠ BitVec.ofNat w (n + 1) := (slot_ne_large (by omega) hk h.fits).symm
    rw [List.take_succ_eq_append_getElem hn]
    by_cases hkn : k = keys[n]
    · subst hkn
      simp only [Function.update_self, ne_eq, not_true, List.mem_append, List.mem_singleton,
        or_true, and_false]
    · rw [Function.update_of_ne hkn, Function.update_of_ne hne, hc.member k hk]
      simp only [List.mem_append, List.mem_singleton, hkn, or_false]

/-- Clearing leaves no member. -/
theorem holds_clear {bound : Nat} {t : Store w} {keys : List (BitVec w)}
    (h : Holds bound t keys) : Holds bound (clear t) [] := by
  have hlength := h.length_lt
  have hzero : (0 : BitVec w) = BitVec.ofNat w 0 := rfl
  have hstart : Clearing bound keys 0 (Function.update t 0 0) := by
    refine ⟨by simp, ?_, ?_⟩
    · intro i hi _
      have hne : BitVec.ofNat w (i + 1) ≠ 0 := by
        rw [hzero]
        intro h0
        have := slot_injective (by omega) (by omega) h.fits h0
        omega
      rw [Function.update_of_ne hne]
      exact h.entry i hi
    · intro k hk
      have hne : k ≠ 0 := by
        rw [hzero]
        exact (slot_ne_large (by omega) hk h.fits).symm
      rw [Function.update_of_ne hne, h.member k hk]
      simp
  have hloop : ∀ n ≤ keys.length, Clearing bound keys n
      ((List.range n).foldl clearEntry (Function.update t 0 0)) := by
    intro n hn
    induction n with
    | zero => exact hstart
    | succ n ih =>
      rw [List.range_succ, List.foldl_append]
      exact clearing_step h (by omega) (ih (by omega))
  have hend := hloop keys.length le_rfl
  have hcount : (t 0).toNat = keys.length := by
    rw [h.count, toNat_slot hlength h.fits]
  refine ⟨h.fits, by simpa using (Nat.zero_le _).trans_lt hlength, ?_, by simp, by simp, ?_⟩
  · rw [clear, hcount]
    exact hend.count
  · intro k hk
    rw [clear, hcount, hend.member k hk]
    simp

/-! ## Slots in use -/

/-- The slots that are in use, where the members and the list may meet. -/
structure Within (bound : Nat) (t : Store w) (keys : Set (BitVec w)) : Prop where
  count : (t 0).toNat ≤ bound
  used : ∀ slot, t slot ≠ 0 → slot.toNat ≤ bound ∨ slot ∈ keys

section Within

variable {bound : Nat} {t : Store w} {keys : Set (BitVec w)}

theorem within_empty (bound : Nat) (keys : Set (BitVec w)) : Within bound (empty : Store w) keys :=
  ⟨by simp [empty], by simp [empty]⟩

theorem Within.mono {bound' : Nat} {keys' : Set (BitVec w)} (h : Within bound t keys)
    (hbound : bound ≤ bound') (hkeys : keys ⊆ keys') : Within bound' t keys' where
  count := h.count.trans hbound
  used slot hslot := (h.used slot hslot).imp (·.trans hbound) (hkeys ·)

theorem within_record (h : Within bound t keys) {key : BitVec w} (hkey : key ∈ keys) :
    Within (bound + 2) (record key t) keys := by
  have hone : (1 : BitVec w).toNat ≤ 1 := Nat.mod_le 1 (2 ^ w)
  have hlength : (Function.update t key 1 0).toNat ≤ bound + 1 := by
    by_cases hzero : (0 : BitVec w) = key
    · rw [hzero, Function.update_self]
      exact hone.trans (Nat.le_add_left _ _)
    · rw [Function.update_of_ne hzero]
      exact h.count.trans (Nat.le_succ _)
  have hnext : (Function.update t key 1 0 + 1).toNat ≤ bound + 2 := by
    rw [BitVec.toNat_add]
    refine (Nat.mod_le _ _).trans ?_
    omega
  constructor
  · rw [record, Function.update_self]
    exact hnext
  · intro slot hslot
    by_cases hzero : slot = 0
    · left
      simp [hzero]
    by_cases hlast : slot = Function.update t key 1 0 + 1
    · left
      rwa [hlast]
    by_cases hmember : slot = key
    · right
      rwa [hmember]
    · simp only [record, Function.update_of_ne hzero, Function.update_of_ne hlast,
        Function.update_of_ne hmember] at hslot
      exact (h.used slot hslot).imp_left (by omega)

theorem clearEntry_eq (t : Store w) (i : Nat) (slot : BitVec w) :
    clearEntry t i slot = 0 ∨ clearEntry t i slot = t slot := by
  simp only [clearEntry, Function.update_apply]
  grind

/-- Clearing only writes zeros. -/
theorem clear_eq (t : Store w) :
    clear t 0 = 0 ∧ ∀ slot, clear t slot = 0 ∨ clear t slot = t slot := by
  have hloop : ∀ (indices : List Nat) (t' : Store w), ∀ slot,
      indices.foldl clearEntry t' slot = 0 ∨ indices.foldl clearEntry t' slot = t' slot := by
    intro indices
    induction indices with
    | nil => exact fun t' slot => .inr rfl
    | cons i indices ih =>
      intro t' slot
      rw [List.foldl_cons]
      have hrest := ih (clearEntry t' i) slot
      have hentry := clearEntry_eq t' i slot
      grind
  constructor
  · have hzero := hloop (List.range (t 0).toNat) (Function.update t 0 0) 0
    rw [Function.update_self, or_self] at hzero
    exact hzero
  · intro slot
    obtain hzero | hsame := hloop (List.range (t 0).toNat) (Function.update t 0 0) slot
    · exact .inl hzero
    · rw [clear, hsame, Function.update_apply]
      grind

theorem within_clear (h : Within bound t keys) : Within bound (clear t) keys := by
  obtain ⟨hzero, hsame⟩ := clear_eq t
  constructor
  · rw [hzero]
    exact Nat.zero_le _
  · intro slot hslot
    obtain hnone | heq := hsame slot
    · exact absurd hnone hslot
    · exact h.used slot (heq ▸ hslot)

end Within

/-! ## Members where nothing is known of the list -/

theorem contains_record_self {t : Store w} {key : BitVec w} (hkey : key ≠ 0) :
    contains key (record key t) = true := by
  have hone : (1 : BitVec w) ≠ 0 := by
    intro hone
    have hzero : key * 1 = key * 0 := by rw [hone]
    exact hkey (by simpa using hzero)
  simp only [contains, record, bne_iff_ne, ne_eq, Function.update_apply]
  grind

/-- A member stays one as long as no member is in the slot of the number of members. -/
theorem contains_record {t : Store w} {key member : BitVec w} (hkey : key ≠ 0) (hmember : member ≠ 0)
    (h : contains member t = true) : contains member (record key t) = true := by
  by_cases heq : member = key
  · rw [heq]
    exact contains_record_self hkey
  · simp only [contains, record, bne_iff_ne, ne_eq, Function.update_apply] at h ⊢
    grind

end Foundation.TransientSet

/-! ## Stores that hold a listed set and nothing else

The set is cleared through its list, so what is not listed would stay. A store that is used by the
operations of the set alone has nothing that is not listed, and is empty after it is cleared. -/

namespace Foundation.TransientSet

variable {w : Nat} {bound : Nat} {t : Store w} {keys : List (BitVec w)} {key : BitVec w}

/-- Every slot in use behind the list is an entry of the list. -/
def AllListed (t : Store w) : Prop :=
  ∀ slot : BitVec w, (t 0).toNat < slot.toNat → t slot ≠ 0 →
    ∃ i, 1 ≤ i ∧ i ≤ (t 0).toNat ∧ t (BitVec.ofNat w i) = slot

/-- The store holds the list and its members, and nothing else. -/
structure Exact (bound : Nat) (t : Store w) (keys : List (BitVec w)) : Prop
    extends Holds bound t keys where
  unused : ∀ slot : BitVec w, keys.length < slot.toNat → slot.toNat < bound → t slot = 0

theorem exact_empty (hfits : bound ≤ 2 ^ w) (hpos : 0 < bound) :
    Exact bound (empty : Store w) [] :=
  ⟨holds_empty hfits hpos, fun _ _ _ => rfl⟩

theorem Exact.toNat_count (h : Exact bound t keys) : (t 0).toNat = keys.length := by
  rw [h.count, toNat_slot h.length_lt h.fits]

theorem Exact.allListed (h : Exact bound t keys) : AllListed t := by
  intro slot hslot hused
  rw [h.toNat_count] at hslot ⊢
  have hlarge : bound ≤ slot.toNat := by
    by_contra! hsmall
    exact hused (h.unused slot hslot hsmall)
  obtain ⟨i, hi, rfl⟩ := List.mem_iff_getElem.mp ((h.member slot hlarge).mp hused)
  exact ⟨i + 1, by omega, by omega, h.entry i hi⟩

theorem Exact.record (h : Exact bound t keys) (hkey : bound ≤ key.toNat)
    (hlength : keys.length + 1 < bound) : Exact bound (record key t) (keys ++ [key]) := by
  refine ⟨holds_record h.toHolds hkey hlength, ?_⟩
  intro slot hslot hsmall
  rw [List.length_append, List.length_singleton] at hslot
  have hzero : slot ≠ 0 := by
    rintro rfl
    simp at hslot
  have hmember : slot ≠ key := by
    rintro rfl
    omega
  have hcount : Function.update t key 1 0 + 1 = BitVec.ofNat w (keys.length + 1) := by
    have hfirst : (0 : BitVec w) ≠ key := slot_ne_large (by omega : 0 < bound) hkey h.fits
    rw [Function.update_of_ne hfirst, h.count]
    exact (BitVec.ofNat_add keys.length 1).symm
  have hentry : slot ≠ BitVec.ofNat w (keys.length + 1) := by
    rintro rfl
    rw [toNat_slot hlength h.fits] at hslot
    omega
  simp only [TransientSet.record, hcount]
  rw [Function.update_of_ne hzero, Function.update_of_ne hentry, Function.update_of_ne hmember]
  exact h.unused slot (by omega) hsmall

/-! ## Clearing -/

theorem clearEntry_slot (t : Store w) (i : Nat) : clearEntry t i (BitVec.ofNat w (i + 1)) = 0 := by
  simp only [clearEntry, Function.update_apply]
  split_ifs <;> rfl

/-- The loop clears the slots of the list. -/
theorem clear_slot (t : Store w) {i : Nat} (hi : i < (t 0).toNat) :
    clear t (BitVec.ofNat w (i + 1)) = 0 := by
  rw [clear]
  generalize (t 0).toNat = n at hi
  induction n with
  | zero => omega
  | succ n ih =>
    rw [List.range_succ, List.foldl_append, List.foldl_cons, List.foldl_nil]
    obtain hlast | hearlier := Nat.lt_succ_iff_lt_or_eq.mp hi |>.symm
    · rw [hlast]
      exact clearEntry_slot _ n
    · obtain hnone | hsame := clearEntry_eq _ n (BitVec.ofNat w (i + 1))
      · exact hnone
      · exact hsame.trans (ih hearlier)

theorem Exact.clear (h : Exact bound t keys) : TransientSet.clear t = empty := by
  funext slot
  obtain ⟨hcount, hzeros⟩ := clear_eq t
  by_cases hlarge : bound ≤ slot.toNat
  · have hmember := (holds_clear h.toHolds).member slot hlarge
    exact not_not.mp (hmember.not.mpr List.not_mem_nil)
  · obtain hnone | hsame := hzeros slot
    · exact hnone
    have hslot : slot = BitVec.ofNat w slot.toNat := by simp
    by_cases hentry : slot.toNat ≤ keys.length
    · cases hn : slot.toNat with
      | zero =>
        rw [hslot, hn]
        exact hcount
      | succ i =>
        rw [hslot, hn]
        apply clear_slot
        rw [h.toNat_count]
        omega
    · exact hsame.trans (h.unused slot (by omega) (by omega))

/-! ## Runs -/

/-- The keys are larger than the slots of a list of all of them. -/
def Behind (keys : List (BitVec w)) : Prop := ∀ key ∈ keys, keys.length < key.toNat

theorem behind_replicate {n : Nat} (hkey : n < key.toNat) : Behind (List.replicate n key) := by
  intro other hmem
  rwa [List.eq_of_mem_replicate hmem, List.length_replicate]

/-- A call leaves the store as it is, records its key or clears the store; or the store is a new
one. -/
inductive Change (recorded : Option (BitVec w)) (t : Store w) : Store w → Prop
  | same : Change recorded t t
  | record {key : BitVec w} (hkey : recorded = some key) : Change recorded t (record key t)
  | clear : Change recorded t (clear t)
  | fresh : Change recorded t empty

section Runs

variable {ι σ ε ω : Type*} {C : Contract ι σ ε ω} {recordedKey : ι → Option (BitVec w)} {s₀ : σ} {calls : List ι}

/-- A run that only uses the operations, with keys behind the list, has nothing but the listed set in the store. -/
theorem exec_exact (store : σ → Store w) (hcall : ∀ i s o s', C.call i s = .ok (o, s') →
      Change (recordedKey i) (store s) (store s'))
    (hstart : store s₀ = empty)
    (hlarge : Behind (calls.filterMap recordedKey)) (past : List ι)
    (hs : past <:+ calls) :
    ∃ keys, keys.length ≤ (past.filterMap recordedKey).length ∧
      Exact ((calls.filterMap recordedKey).length + 1) (store (C.exec s₀ past)) keys := by
  induction past with
  | nil =>
    refine ⟨[], Nat.zero_le _, ?_⟩
    rw [Contract.exec_nil, hstart]
    apply exact_empty _ (Nat.succ_pos _)
    -- a recorded key is a word
    cases hkeys : calls.filterMap recordedKey with
    | nil => exact Nat.one_le_two_pow
    | cons key keys => exact hkeys ▸ (hlarge key (hkeys ▸ List.mem_cons_self)).trans key.isLt
  | cons i past ih =>
    obtain ⟨keys, hlength, hexact⟩ := ih ((List.suffix_cons i past).trans hs)
    have hmore : (past.filterMap recordedKey).length ≤
        ((i :: past).filterMap recordedKey).length :=
      ((List.sublist_cons_self i past).filterMap recordedKey).length_le
    obtain ⟨e, -, hstep⟩ | ⟨o, hok⟩ := Contract.step_cases i (C.exec s₀ past) (C := C)
    · rw [Contract.exec_cons, hstep]
      exact ⟨keys, hlength.trans hmore, hexact⟩
    rw [Contract.exec_cons]
    generalize hnext : store (C.step i (C.exec s₀ past)) = next
    have hchange := hnext ▸ hcall i _ _ _ hok
    cases hchange with
    | same => exact ⟨keys, hlength.trans hmore, hexact⟩
    | clear =>
      refine ⟨[], Nat.zero_le _, ?_⟩
      rw [hexact.clear]
      exact exact_empty hexact.fits (Nat.succ_pos _)
    | fresh => exact ⟨[], Nat.zero_le _, exact_empty hexact.fits (Nat.succ_pos _)⟩
    | @record key hkey =>
      have hmem : key ∈ calls.filterMap recordedKey :=
        List.mem_filterMap.mpr ⟨i, hs.subset List.mem_cons_self, hkey⟩
      have hcount : ((i :: past).filterMap recordedKey).length =
          (past.filterMap recordedKey).length + 1 := by
        rw [List.filterMap_cons_some hkey, List.length_cons]
      have hroom := (hs.sublist.filterMap recordedKey).length_le
      refine ⟨keys ++ [key], ?_, hexact.record (hlarge key hmem) (by omega)⟩
      rw [List.length_append, List.length_singleton]
      omega

end Runs

end Foundation.TransientSet
