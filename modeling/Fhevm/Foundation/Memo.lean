import Fhevm.Foundation.HashMap

/-!
# Caches that are never refreshed

A cache stands between a program and a source. It asks the source for a key that it does not have
and keeps the answer, so a source that changes its answers is not noticed.

## Main definitions

* `Memo.lookup`, `Memo.lookupAll` — lookups through the cache.
* `Memo.Round` — lookups of some keys, or the loss of the cache.
* `Memo.FirstAnswer` — what the source has answered first for a key, since the cache was lost.
* `Memo.get?_after` — it is what the cache has for the key.
* `Cache` — the values by their keys.
* `Cache.fetch`, `Cache.evict` — a fetch that fills the cache, and the loss of a value.
* `Cache.All` — all values have a property.
-/

namespace Foundation.Memo

variable {κ ν : Type*}

/-! ## Lookups -/

/-- Where every key has an answer, the answers stand in the places of the keys. -/
theorem getElem?_filterMap_of_isSome {f : κ → Option ν} {ks : List κ} {i : ℕ} {v : ν}
    (h : ∀ k ∈ ks, (f k).isSome) :
    (ks.filterMap f)[i]? = some v ↔ ∃ k, ks[i]? = some k ∧ f k = some v := by
  induction ks generalizing i with
  | nil => simp
  | cons k ks ih =>
    obtain ⟨hk, hks⟩ := List.forall_mem_cons.mp h
    obtain ⟨w, hw⟩ := Option.isSome_iff_exists.mp hk
    rw [List.filterMap_cons_some hw]
    cases i with
    | zero => simp [hw]
    | succ i => simpa using ih hks

section Lookups

variable [DecidableEq κ]

/-- An entry of the cache, or else the answer of the source, which is kept. -/
def lookup (source : κ → Option ν) (cache : HashMap κ ν) (k : κ) : Option ν × HashMap κ ν :=
  match cache.get? k with
  | some v => (some v, cache)
  | none =>
    match source k with
    | some v => (some v, cache.insert k v)
    | none => (none, cache)

/-- One key after the other; keys without an answer are left out. -/
def lookupAll (source : κ → Option ν) : List κ → HashMap κ ν → List ν × HashMap κ ν
  | [], cache => ([], cache)
  | k :: ks, cache =>
    let (v, cache) := lookup source cache k
    let (vs, cache) := lookupAll source ks cache
    (v.toList ++ vs, cache)

/-- What a lookup answers. -/
def answer (source : κ → Option ν) (cache : HashMap κ ν) (k : κ) : Option ν :=
  (cache.get? k).or (source k)

variable {source : κ → Option ν} {cache : HashMap κ ν} {k k' : κ} {v : ν}

@[simp] theorem lookup_fst : (lookup source cache k).1 = answer source cache k := by
  unfold lookup answer
  cases cache.get? k with
  | some v => rfl
  | none => cases source k <;> rfl

/-- A lookup leaves its answer in the cache. -/
theorem get?_lookup : (lookup source cache k).2.get? k' =
    if k' = k then answer source cache k else cache.get? k' := by
  unfold lookup answer
  cases hentry : cache.get? k with
  | some v => grind
  | none =>
    cases source k with
    | some v => simp [HashMap.get?_insert]
    | none => grind

/-- No lookup changes the answers to later ones. -/
theorem answer_lookup : answer source (lookup source cache k).2 k' = answer source cache k' := by
  unfold answer
  rw [get?_lookup]
  split_ifs with hk
  · subst hk
    unfold answer
    cases cache.get? k' <;> cases source k' <;> rfl
  · rfl

theorem lookupAll_fst (ks : List κ) :
    (lookupAll source ks cache).1 = ks.filterMap (answer source cache) := by
  induction ks generalizing cache with
  | nil => rfl
  | cons k ks ih =>
    have hrest : (answer source (lookup source cache k).2) = answer source cache :=
      funext fun _ => answer_lookup
    simp only [lookupAll, lookup_fst, ih, hrest]
    cases h : answer source cache k <;> simp [h]

theorem get?_lookupAll (ks : List κ) : (lookupAll source ks cache).2.get? k' =
    if k' ∈ ks then answer source cache k' else cache.get? k' := by
  induction ks generalizing cache with
  | nil => rfl
  | cons k ks ih =>
    simp only [lookupAll, ih, answer_lookup, get?_lookup, List.mem_cons]
    grind

end Lookups

/-! ## Histories -/

/-- What happens to a cache. -/
inductive Round (κ ν : Type*)
  | lookups (keys : List κ) (source : κ → Option ν)
  | loss

/-- A key has no answer since the last loss. -/
def Unanswered (rounds : List (Round κ ν)) (k : κ) : Prop :=
  ∀ later keys source earlier, rounds = later ++ .lookups keys source :: earlier → k ∈ keys →
    .loss ∉ later → source k = none

/-- The source was asked for a key that had no answer since the last loss, and this is what it
answered. -/
def FirstAnswer (rounds : List (Round κ ν)) (k : κ) (v : ν) : Prop :=
  ∃ later keys source earlier, rounds = later ++ .lookups keys source :: earlier ∧ .loss ∉ later ∧
    k ∈ keys ∧ source k = some v ∧ Unanswered earlier k

variable {source : κ → Option ν} {k : κ} {v : ν} {past : List (Round κ ν)} {keys : List κ}

theorem unanswered_lookups : Unanswered (.lookups keys source :: past) k ↔
    (k ∈ keys → source k = none) ∧ Unanswered past k := by
  constructor
  · intro h
    refine ⟨fun hk => h [] keys source past rfl hk (by simp), ?_⟩
    rintro later keys' source' earlier rfl hk hloss
    exact h (.lookups keys source :: later) keys' source' earlier rfl hk (by simp [hloss])
  · rintro ⟨hnow, hpast⟩ later keys' source' earlier heq hk hloss
    cases later with
    | nil =>
      obtain ⟨⟨rfl, rfl⟩, rfl⟩ := by simpa using heq
      exact hnow hk
    | cons round later =>
      obtain ⟨rfl, rfl⟩ := List.cons.inj heq
      exact hpast later keys' source' earlier rfl hk (by grind)

theorem unanswered_loss : Unanswered (.loss :: past) k := by
  rintro later keys source earlier heq - hloss
  cases later with
  | nil => cases heq
  | cons round later =>
    obtain ⟨rfl, -⟩ := List.cons.inj heq
    exact absurd List.mem_cons_self hloss

theorem firstAnswer_lookups : FirstAnswer (.lookups keys source :: past) k v ↔
    FirstAnswer past k v ∨ (k ∈ keys ∧ source k = some v ∧ Unanswered past k) := by
  constructor
  · rintro ⟨later, keys', source', earlier, heq, hloss, hanswer⟩
    cases later with
    | nil =>
      obtain ⟨⟨rfl, rfl⟩, rfl⟩ := by simpa using heq
      exact .inr hanswer
    | cons round later =>
      obtain ⟨rfl, rfl⟩ := List.cons.inj heq
      exact .inl ⟨later, keys', source', earlier, rfl, by grind, hanswer⟩
  · rintro (⟨later, keys', source', earlier, rfl, hloss, hanswer⟩ | hanswer)
    · exact ⟨.lookups keys source :: later, keys', source', earlier, rfl, by simp [hloss], hanswer⟩
    · exact ⟨[], keys, source, past, rfl, by simp, hanswer⟩

theorem not_firstAnswer_loss : ¬ FirstAnswer (.loss :: past) k v := by
  rintro ⟨later, keys, source, earlier, heq, hloss, -⟩
  cases later with
  | nil => cases heq
  | cons round later =>
    obtain ⟨rfl, -⟩ := List.cons.inj heq
    exact absurd List.mem_cons_self hloss

section After

variable [DecidableEq κ]

/-- The cache after some rounds, newest first. -/
def after : List (Round κ ν) → HashMap κ ν
  | [] => .empty
  | .lookups keys source :: past => (lookupAll source keys (after past)).2
  | .loss :: _ => .empty

/-- The cache has no entry exactly for a key without an answer. -/
theorem get?_after_eq_none {rounds : List (Round κ ν)} :
    (after rounds).get? k = none ↔ Unanswered rounds k := by
  induction rounds with
  | nil => simp [after, Unanswered]
  | cons round past ih =>
    cases round with
    | lookups keys source =>
      rw [after, get?_lookupAll, unanswered_lookups]
      unfold answer
      grind
    | loss => simp [after, unanswered_loss]

/-- The cache has what the source answered first. -/
theorem get?_after {rounds : List (Round κ ν)} :
    (after rounds).get? k = some v ↔ FirstAnswer rounds k v := by
  induction rounds with
  | nil => simp [after, FirstAnswer]
  | cons round past ih =>
    cases round with
    | lookups keys source =>
      have hnone : (after past).get? k = none ↔ Unanswered past k := get?_after_eq_none
      rw [after, get?_lookupAll, firstAnswer_lookups, ← ih, ← hnone]
      unfold answer
      cases hentry : (after past).get? k with
      | none => grind
      | some w => grind
    | loss => simp [after, not_firstAnswer_loss]

/-- A lookup answers what the source answered first, perhaps just now. -/
theorem answer_eq_some {rounds : List (Round κ ν)} (hk : k ∈ keys) :
    answer source (after rounds) k = some v ↔ FirstAnswer (.lookups keys source :: rounds) k v := by
  rw [← get?_after, after, get?_lookupAll, if_pos hk]

end After

end Foundation.Memo

/-! ## Caches that are filled on a miss

A value is read from its source on the first fetch, and is the cached one on all later ones, until
it is evicted. The source may have changed then. -/

namespace Foundation

variable {κ ν : Type*}

abbrev Cache (κ ν : Type*) := κ → Option ν

namespace Cache

def empty : Cache κ ν := fun _ => none

/-- All values that are cached have a property. -/
def All (P : ν → Prop) (c : Cache κ ν) : Prop := ∀ k v, c k = some v → P v

theorem all_empty {P : ν → Prop} : All P (empty : Cache κ ν) := fun _ _ h => by cases h

variable [DecidableEq κ]

/-- The value of a key and the cache after its fetch, if it is there or can be read. -/
def fetch (c : Cache κ ν) (k : κ) (read : Option ν) : Option (ν × Cache κ ν) :=
  match c k with
  | some v => some (v, c)
  | none => read.map fun v => (v, Function.update c k (some v))

def evict (c : Cache κ ν) (k : κ) : Cache κ ν := Function.update c k none

variable {c c' : Cache κ ν} {k : κ} {v : ν} {read : Option ν} {P : ν → Prop}

/-- A property of all values is kept if what is read has it too. -/
theorem All.fetch (hc : c.All P) (hread : ∀ w, read = some w → P w)
    (h : c.fetch k read = some (v, c')) : P v ∧ c'.All P := by
  unfold Cache.fetch at h
  split at h
  · next old hold =>
    obtain ⟨rfl, rfl⟩ := Prod.mk.inj (Option.some.inj h)
    exact ⟨hc k _ hold, hc⟩
  · obtain ⟨w, hw, heq⟩ := Option.map_eq_some_iff.mp h
    obtain ⟨rfl, rfl⟩ := Prod.mk.inj heq
    refine ⟨hread _ hw, fun k' v' hv' => ?_⟩
    by_cases hk : k' = k
    · subst hk
      rw [Function.update_self, Option.some.injEq] at hv'
      exact hv' ▸ hread _ hw
    · rw [Function.update_of_ne hk] at hv'
      exact hc k' v' hv'

theorem All.evict (hc : c.All P) (k : κ) : (c.evict k).All P := by
  intro k' v hv
  by_cases hk : k' = k
  · subst hk
    rw [Cache.evict, Function.update_self] at hv
    cases hv
  · rw [Cache.evict, Function.update_of_ne hk] at hv
    exact hc k' v hv

end Cache

end Foundation
