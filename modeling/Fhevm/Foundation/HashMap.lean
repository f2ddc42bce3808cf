import Mathlib

/-!
# Finite maps with an iteration order

A hash map is modelled by the list of its entries in iteration order, keys
distinct. The order is part of the value, so a program that iterates can be
compared over all orders; two maps with the same lookups differ by a
permutation only.

## Main definitions

* `HashMap` — entries in iteration order, keys distinct.
* `HashMap.get?`, `HashMap.insert`, `HashMap.modify` — the entry operations.
* `HashMap.insertAll` — insert a list of entries, the last one for a key wins.
* `HashMap.traverse` — rewrite the values in iteration order, with a state and early exit.
* `HashMap.All` — every value satisfies a predicate of its key.
-/

namespace Foundation

/-- A finite map together with the order in which iteration visits it. -/
structure HashMap (κ ν : Type*) where
  entries : List (κ × ν)
  nodup : (entries.map Prod.fst).Nodup

namespace HashMap

variable {κ ν μ : Type*}

@[ext] theorem ext {m m' : HashMap κ ν} (h : m.entries = m'.entries) : m = m' := by
  cases m
  cases m'
  cases h
  rfl

/-- The keys in iteration order. -/
def keys (m : HashMap κ ν) : List κ := m.entries.map Prod.fst

def empty : HashMap κ ν := ⟨[], by simp⟩

instance : Inhabited (HashMap κ ν) := ⟨empty⟩

@[simp] theorem entries_empty : (empty : HashMap κ ν).entries = [] := rfl

/-- Change every value, keeping keys and order. -/
def mapVals (m : HashMap κ ν) (f : κ → ν → μ) : HashMap κ μ where
  entries := m.entries.map (fun e => (e.1, f e.1 e.2))
  nodup := by simpa [List.map_map, Function.comp_def] using m.nodup

@[simp] theorem entries_mapVals (m : HashMap κ ν) (f : κ → ν → μ) :
    (m.mapVals f).entries = m.entries.map (fun e => (e.1, f e.1 e.2)) := rfl

@[simp] theorem keys_mapVals (m : HashMap κ ν) (f : κ → ν → μ) : (m.mapVals f).keys = m.keys := by
  simp [keys, Function.comp_def]

/-- The same map visited in another order. -/
def reorder (m : HashMap κ ν) (es : List (κ × ν)) (h : es.Perm m.entries) : HashMap κ ν :=
  ⟨es, (h.map Prod.fst).nodup_iff.mpr m.nodup⟩

@[simp] theorem entries_reorder (m : HashMap κ ν) (es : List (κ × ν)) (h : es.Perm m.entries) :
    (m.reorder es h).entries = es := rfl

section Lookup

variable [DecidableEq κ]

/-- The value stored under a key. -/
def get? (m : HashMap κ ν) (k : κ) : Option ν :=
  (m.entries.find? (fun e => e.1 = k)).map Prod.snd

/-- Apply `f` to the value stored under `k`, if there is one. -/
def modify (m : HashMap κ ν) (k : κ) (f : ν → ν) : HashMap κ ν :=
  m.mapVals (fun k' v => if k' = k then f v else v)

/-- Store a value: an existing key keeps its place, a new one comes last. -/
def insert (m : HashMap κ ν) (k : κ) (v : ν) : HashMap κ ν :=
  if h : k ∈ m.keys then m.modify k (fun _ => v)
  else
    { entries := m.entries ++ [(k, v)]
      nodup := by
        have hk : k ∉ m.entries.map Prod.fst := h
        rw [List.map_append, List.nodup_append]
        refine ⟨m.nodup, by simp, ?_⟩
        rintro a ha b hb rfl
        simp only [List.map_cons, List.map_nil, List.mem_singleton] at hb
        exact hk (hb ▸ ha) }

/-- Store a value unless the key is present. -/
def orInsert (m : HashMap κ ν) (k : κ) (v : ν) : HashMap κ ν :=
  if k ∈ m.keys then m else m.insert k v

/-- Insert entries one after the other. -/
def insertAll (m : HashMap κ ν) (es : List (κ × ν)) : HashMap κ ν :=
  es.foldl (fun m e => m.insert e.1 e.2) m

@[simp] theorem get?_empty (k : κ) : (empty : HashMap κ ν).get? k = none := rfl

theorem get?_eq_some {m : HashMap κ ν} {k : κ} {v : ν} :
    m.get? k = some v ↔ (k, v) ∈ m.entries := by
  obtain ⟨es, hnd⟩ := m
  simp only [get?]
  induction es with
  | nil => simp
  | cons e es ih =>
    obtain ⟨k', v'⟩ := e
    simp only [List.map_cons, List.nodup_cons] at hnd
    by_cases hk : k' = k
    · subst hk
      have hnot : ∀ w, (k', w) ∉ es := fun w hw => hnd.1 (List.mem_map.mpr ⟨_, hw, rfl⟩)
      simp [hnot, eq_comm]
    · have hne : ¬ (k = k') := fun h => hk h.symm
      simpa [List.find?_cons, hk, hne] using ih hnd.2

theorem get?_eq_none {m : HashMap κ ν} {k : κ} : m.get? k = none ↔ k ∉ m.keys := by
  rw [Option.eq_none_iff_forall_ne_some, keys, List.mem_map]
  constructor
  · rintro h ⟨⟨k', v⟩, he, rfl⟩
    exact h v ((get?_eq_some).mpr he)
  · intro h v hv
    exact h ⟨(k, v), (get?_eq_some).mp hv, rfl⟩

theorem get?_isSome {m : HashMap κ ν} {k : κ} : (m.get? k).isSome ↔ k ∈ m.keys := by
  rw [← not_iff_not, ← get?_eq_none]
  simp

theorem get?_mapVals (m : HashMap κ ν) (f : κ → ν → μ) (k : κ) :
    (m.mapVals f).get? k = (m.get? k).map (f k) := by
  ext v
  rw [get?_eq_some, entries_mapVals, List.mem_map, Option.map_eq_some_iff]
  constructor
  · rintro ⟨⟨k', w⟩, he, heq⟩
    cases heq
    exact ⟨w, (get?_eq_some).mpr he, rfl⟩
  · rintro ⟨w, hw, rfl⟩
    exact ⟨(k, w), (get?_eq_some).mp hw, rfl⟩

@[simp] theorem keys_modify (m : HashMap κ ν) (k : κ) (f : ν → ν) :
    (m.modify k f).keys = m.keys := keys_mapVals _ _

theorem get?_modify (m : HashMap κ ν) (k k' : κ) (f : ν → ν) :
    (m.modify k f).get? k' = if k' = k then (m.get? k').map f else m.get? k' := by
  rw [modify, get?_mapVals]
  split
  · rfl
  · simp

theorem get?_insert (m : HashMap κ ν) (k k' : κ) (v : ν) :
    (m.insert k v).get? k' = if k' = k then some v else m.get? k' := by
  unfold insert
  split
  · rename_i hk
    rw [get?_modify]
    split
    · rename_i h
      subst h
      obtain ⟨w, hw⟩ := Option.isSome_iff_exists.mp ((get?_isSome).mpr hk)
      simp [hw]
    · rfl
  · rename_i hk
    have hnone : m.get? k = none := (get?_eq_none).mpr hk
    simp only [get?, List.find?_append] at hnone ⊢
    split
    · rename_i h
      subst h
      simp only [Option.map_eq_none_iff] at hnone
      simp [hnone]
    · rename_i h
      have hne : ¬ (k = k') := fun h' => h h'.symm
      simp [hne]

theorem mem_keys_insert {m : HashMap κ ν} {k k' : κ} {v : ν} :
    k' ∈ (m.insert k v).keys ↔ k' = k ∨ k' ∈ m.keys := by
  rw [← get?_isSome, get?_insert, ← get?_isSome]
  split <;> simp_all

theorem get?_orInsert (m : HashMap κ ν) (k k' : κ) (v : ν) :
    (m.orInsert k v).get? k' = if k' = k then some ((m.get? k).getD v) else m.get? k' := by
  unfold orInsert
  split
  · rename_i hk
    obtain ⟨w, hw⟩ := Option.isSome_iff_exists.mp ((get?_isSome).mpr hk)
    split
    · rename_i h
      simp [h, hw]
    · rfl
  · rename_i hk
    rw [get?_insert, (get?_eq_none).mpr hk]
    rfl

theorem mem_keys_orInsert {m : HashMap κ ν} {k k' : κ} {v : ν} :
    k' ∈ (m.orInsert k v).keys ↔ k' = k ∨ k' ∈ m.keys := by
  rw [← get?_isSome, get?_orInsert, ← get?_isSome]
  split <;> simp_all

@[simp] theorem insertAll_nil (m : HashMap κ ν) : m.insertAll [] = m := rfl

@[simp] theorem insertAll_cons (m : HashMap κ ν) (e : κ × ν) (es : List (κ × ν)) :
    m.insertAll (e :: es) = (m.insert e.1 e.2).insertAll es := rfl

theorem insertAll_append (m : HashMap κ ν) (es fs : List (κ × ν)) :
    m.insertAll (es ++ fs) = (m.insertAll es).insertAll fs := List.foldl_append ..

theorem mem_keys_insertAll {m : HashMap κ ν} {es : List (κ × ν)} {k : κ} :
    k ∈ (m.insertAll es).keys ↔ k ∈ m.keys ∨ k ∈ es.map Prod.fst := by
  induction es generalizing m with
  | nil => simp
  | cons e es ih =>
    rw [insertAll_cons, ih, mem_keys_insert, List.map_cons, List.mem_cons]
    tauto

/-- A key that is not inserted keeps its value. -/
theorem get?_insertAll_of_notMem {m : HashMap κ ν} {es : List (κ × ν)} {k : κ}
    (h : k ∉ es.map Prod.fst) : (m.insertAll es).get? k = m.get? k := by
  induction es generalizing m with
  | nil => rfl
  | cons e es ih =>
    rw [List.map_cons, List.mem_cons, not_or] at h
    rw [insertAll_cons, ih h.2, get?_insert, if_neg h.1]

/-- A key that is inserted gets its value from the inserted entries alone. -/
theorem get?_insertAll_of_mem {m m' : HashMap κ ν} {es : List (κ × ν)} {k : κ}
    (h : k ∈ es.map Prod.fst) : (m.insertAll es).get? k = (m'.insertAll es).get? k := by
  induction es generalizing m m' with
  | nil => simp at h
  | cons e es ih =>
    rw [insertAll_cons, insertAll_cons]
    by_cases hes : k ∈ es.map Prod.fst
    · exact ih hes
    · have hk : k = e.1 := by
        rw [List.map_cons, List.mem_cons] at h
        exact h.resolve_right hes
      rw [get?_insertAll_of_notMem hes, get?_insertAll_of_notMem hes, get?_insert, get?_insert,
        if_pos hk, if_pos hk]

/-- Every stored value of an `insertAll` was there before or was inserted. -/
theorem mem_of_get?_insertAll {m : HashMap κ ν} {es : List (κ × ν)} {k : κ} {v : ν}
    (h : (m.insertAll es).get? k = some v) : m.get? k = some v ∨ (k, v) ∈ es := by
  induction es generalizing m with
  | nil => exact .inl h
  | cons e es ih =>
    rcases ih h with h | h
    · rw [get?_insert] at h
      split at h
      · rename_i hk
        cases h
        exact .inr (by rw [hk]; exact List.mem_cons_self)
      · exact .inl h
    · exact .inr (List.mem_cons_of_mem _ h)

/-- Of entries with distinct keys, every one is stored. -/
theorem get?_insertAll_of_nodup {m : HashMap κ ν} {es : List (κ × ν)} {k : κ} {v : ν}
    (hnodup : (es.map Prod.fst).Nodup) (h : (k, v) ∈ es) : (m.insertAll es).get? k = some v := by
  induction es generalizing m with
  | nil => cases h
  | cons e es ih =>
    rw [List.map_cons, List.nodup_cons] at hnodup
    rw [insertAll_cons]
    obtain rfl | h := List.mem_cons.mp h
    · rw [get?_insertAll_of_notMem hnodup.1, get?_insert, if_pos rfl]
    · exact ih hnodup.2 h

/-- After inserting several lists, a value is the one of the last list with its key. -/
theorem get?_foldl_insertAll {m : HashMap κ ν} {ess : List (List (κ × ν))} {k : κ} {v : ν} :
    (ess.foldl insertAll m).get? k = some v ↔
      (∃ pre es post, ess = pre ++ es :: post ∧ (empty.insertAll es).get? k = some v ∧
        ∀ es' ∈ post, k ∉ es'.map Prod.fst) ∨
      (m.get? k = some v ∧ ∀ es ∈ ess, k ∉ es.map Prod.fst) := by
  induction ess using List.reverseRecOn with
  | nil => simp
  | append_singleton ess es ih =>
    rw [List.foldl_append, List.foldl_cons, List.foldl_nil]
    by_cases hk : k ∈ es.map Prod.fst
    · have hsame : ((ess.foldl insertAll m).insertAll es).get? k =
          ((empty : HashMap κ ν).insertAll es).get? k := get?_insertAll_of_mem hk
      rw [hsame]
      constructor
      · intro hv
        exact .inl ⟨ess, es, [], rfl, hv, by simp⟩
      · rintro (⟨pre, es', post, hsplit, hv, hpost⟩ | ⟨-, hnot⟩)
        · rcases List.eq_nil_or_concat post with rfl | ⟨post', last, rfl⟩
          · obtain ⟨-, heq⟩ := List.append_inj' hsplit rfl
            rw [List.singleton_inj.mp heq]
            exact hv
          · rw [List.concat_eq_append, ← List.cons_append, ← List.append_assoc] at hsplit
            obtain ⟨-, heq⟩ := List.append_inj' hsplit rfl
            exact absurd hk (hpost es (by simp [List.singleton_inj.mp heq]))
        · exact absurd hk (hnot es (by simp))
    · rw [get?_insertAll_of_notMem hk, ih]
      constructor
      · rintro (⟨pre, es', post, rfl, hv, hpost⟩ | ⟨hv, hnot⟩)
        · refine .inl ⟨pre, es', post ++ [es], by simp, hv, fun es'' h => ?_⟩
          rcases List.mem_append.mp h with h | h
          · exact hpost es'' h
          · rw [List.mem_singleton.mp h]
            exact hk
        · refine .inr ⟨hv, fun es'' h => ?_⟩
          rcases List.mem_append.mp h with h | h
          · exact hnot es'' h
          · rw [List.mem_singleton.mp h]
            exact hk
      · rintro (⟨pre, es', post, hsplit, hv, hpost⟩ | ⟨hv, hnot⟩)
        · rcases List.eq_nil_or_concat post with rfl | ⟨post', last, rfl⟩
          · obtain ⟨-, heq⟩ := List.append_inj' hsplit rfl
            rw [← List.singleton_inj.mp heq, get?_insertAll_of_notMem hk, get?_empty] at hv
            cases hv
          · rw [List.concat_eq_append, ← List.cons_append, ← List.append_assoc] at hsplit
            obtain ⟨rfl, -⟩ := List.append_inj' hsplit rfl
            exact .inl ⟨pre, es', post', rfl, hv, fun es'' h =>
              hpost es'' (by simp [h])⟩
        · exact .inr ⟨hv, fun es'' h => hnot es'' (List.mem_append_left _ h)⟩

/-- Inserting one value under several keys. -/
theorem get?_insertAll_const {m : HashMap κ ν} {ks : List κ} {v : ν} {k : κ} :
    (m.insertAll (ks.map (·, v))).get? k = if k ∈ ks then some v else m.get? k := by
  induction ks generalizing m with
  | nil => rfl
  | cons k' ks ih =>
    rw [List.map_cons, insertAll_cons, ih, get?_insert]
    by_cases hks : k ∈ ks <;> by_cases hk : k = k' <;> simp [hks, hk]

section LastIndex

variable {α : Type*}

/-- Record for every key the position of the last list element that carries it. -/
def lastIndex (f : α → List κ) (l : List α) : HashMap κ ℕ :=
  empty.insertAll (l.zipIdx.flatMap (fun a => (f a.1).map (·, a.2)))

theorem lastIndex_map {β : Type*} (f : β → List κ) (g : α → β) (l : List α) :
    lastIndex f (l.map g) = lastIndex (fun a => f (g a)) l := by
  simp [lastIndex, List.zipIdx_map, List.flatMap_map]

theorem get?_lastIndex_concat (f : α → List κ) (l : List α) (a : α) (k : κ) :
    (lastIndex f (l ++ [a])).get? k =
      if k ∈ f a then some l.length else (lastIndex f l).get? k := by
  simp only [lastIndex, List.zipIdx_append, List.flatMap_append, insertAll_append,
    List.zipIdx_singleton, List.flatMap_singleton, Nat.zero_add]
  exact get?_insertAll_const

theorem get?_lastIndex_eq_some {f : α → List κ} {l : List α} {k : κ} {i : ℕ} :
    (lastIndex f l).get? k = some i ↔
      (∃ a, l[i]? = some a ∧ k ∈ f a) ∧ ∀ j b, i < j → l[j]? = some b → k ∉ f b := by
  induction l using List.reverseRecOn with
  | nil => simp [lastIndex]
  | append_singleton l a ih =>
    rw [get?_lastIndex_concat]
    split
    · rename_i hk
      constructor
      · rintro ⟨⟩
        refine ⟨⟨a, by simp, hk⟩, fun j b hj hb => ?_⟩
        have := (List.getElem?_eq_some_iff.mp hb).1
        simp only [List.length_append, List.length_singleton] at this
        omega
      · rintro ⟨⟨b, hb, _⟩, hlast⟩
        by_contra hne
        have hlt := (List.getElem?_eq_some_iff.mp hb).1
        simp only [List.length_append, List.length_singleton] at hlt
        have hi : i ≠ l.length := fun h => hne (by rw [h])
        exact hlast l.length a (by omega) (by simp) hk
    · rename_i hk
      rw [ih]
      constructor
      · rintro ⟨⟨b, hb, hkb⟩, hlast⟩
        have hlt := (List.getElem?_eq_some_iff.mp hb).1
        refine ⟨⟨b, by rw [List.getElem?_append_left hlt]; exact hb, hkb⟩, fun j c hj hc => ?_⟩
        rcases Nat.lt_or_ge j l.length with hjl | hjl
        · rw [List.getElem?_append_left hjl] at hc
          exact hlast j c hj hc
        · have := (List.getElem?_eq_some_iff.mp hc).1
          simp only [List.length_append, List.length_singleton] at this
          have hjl : j = l.length := by omega
          subst hjl
          simp only [List.getElem?_concat_length, Option.some.injEq] at hc
          exact hc ▸ hk
      · rintro ⟨⟨b, hb, hkb⟩, hlast⟩
        have hlt : i < l.length := by
          have hlt := (List.getElem?_eq_some_iff.mp hb).1
          simp only [List.length_append, List.length_singleton] at hlt
          by_contra hge
          have hi : i = l.length := by omega
          subst hi
          simp only [List.getElem?_concat_length, Option.some.injEq] at hb
          exact hk (hb ▸ hkb)
        rw [List.getElem?_append_left hlt] at hb
        refine ⟨⟨b, hb, hkb⟩, fun j c hj hc => hlast j c hj ?_⟩
        rw [List.getElem?_append_left (List.getElem?_eq_some_iff.mp hc).1]
        exact hc

theorem get?_lastIndex_isSome {f : α → List κ} {l : List α} {k : κ} :
    ((lastIndex f l).get? k).isSome ↔ ∃ a ∈ l, k ∈ f a := by
  induction l using List.reverseRecOn with
  | nil => simp [lastIndex]
  | append_singleton l a ih =>
    rw [get?_lastIndex_concat]
    split <;> rename_i hk <;> simp [ih, hk, or_and_right, exists_or]

end LastIndex

end Lookup

/-! ## Rewriting the values in iteration order -/

section Traverse

variable {σ ε : Type*}

/-- Rewrite values from left to right, threading a state; the first error aborts. -/
def traverseEntries (f : σ → ν → Except ε (σ × μ)) :
    σ → List (κ × ν) → Except ε (σ × List (κ × μ))
  | s, [] => .ok (s, [])
  | s, (k, v) :: es =>
    match f s v with
    | .error e => .error e
    | .ok (s', v') =>
      match traverseEntries f s' es with
      | .error e => .error e
      | .ok (s'', es') => .ok (s'', (k, v') :: es')

theorem keys_traverseEntries {f : σ → ν → Except ε (σ × μ)} {s s' : σ} {es : List (κ × ν)}
    {es' : List (κ × μ)} (h : traverseEntries f s es = .ok (s', es')) :
    es'.map Prod.fst = es.map Prod.fst := by
  induction es generalizing s es' with
  | nil =>
    simp only [traverseEntries, Except.ok.injEq, Prod.mk.injEq] at h
    simp [← h.2]
  | cons e es ih =>
    obtain ⟨k, v⟩ := e
    rw [traverseEntries] at h
    split at h
    · cases h
    · split at h
      · cases h
      · rename_i htail
        cases h
        simp [ih htail]

/-- What holds of every rewritten value. -/
theorem forall_traverseEntries {f : σ → ν → Except ε (σ × μ)} {P : μ → Prop}
    (hf : ∀ s v s' v', f s v = .ok (s', v') → P v') {s s' : σ} {es : List (κ × ν)}
    {es' : List (κ × μ)} (h : traverseEntries f s es = .ok (s', es')) : ∀ e ∈ es', P e.2 := by
  induction es generalizing s es' with
  | nil =>
    simp only [traverseEntries, Except.ok.injEq, Prod.mk.injEq] at h
    simp [← h.2]
  | cons e es ih =>
    obtain ⟨k, v⟩ := e
    rw [traverseEntries] at h
    split at h
    · cases h
    · rename_i hv
      split at h
      · cases h
      · rename_i htail
        cases h
        simp only [List.forall_mem_cons]
        exact ⟨hf _ _ _ _ hv, ih htail⟩

/-- The loop over `values_mut` of a map. -/
def traverse (m : HashMap κ ν) (f : σ → ν → Except ε (σ × μ)) (s : σ) :
    Except ε (σ × HashMap κ μ) :=
  match h : traverseEntries f s m.entries with
  | .error e => .error e
  | .ok (s', es') => .ok (s', ⟨es', by rw [keys_traverseEntries h]; exact m.nodup⟩)

theorem traverse_eq_ok {m : HashMap κ ν} {f : σ → ν → Except ε (σ × μ)} {s s' : σ}
    {m' : HashMap κ μ} :
    m.traverse f s = .ok (s', m') ↔ traverseEntries f s m.entries = .ok (s', m'.entries) := by
  unfold traverse
  split
  · rename_i h
    simp [h]
  · rename_i h
    simp [h, HashMap.ext_iff]

end Traverse

/-! ## What holds of all entries -/

section All

variable {P : κ → ν → Prop} {Q : κ → μ → Prop} {m : HashMap κ ν}

/-- Every value satisfies a predicate of its key. -/
def All (P : κ → ν → Prop) (m : HashMap κ ν) : Prop := ∀ e ∈ m.entries, P e.1 e.2

@[simp] theorem all_empty : All P empty := by simp [All]

theorem All.mapVals {f : κ → ν → μ} (h : m.All P) (hf : ∀ k v, P k v → Q k (f k v)) :
    (m.mapVals f).All Q := by
  intro e he
  obtain ⟨e', he', rfl⟩ := List.mem_map.mp he
  exact hf _ _ (h e' he')

/-- A loop over the values keeps what each of its rounds establishes. -/
theorem All.traverse {σ ε : Type*} {f : σ → ν → Except ε (σ × μ)} {s s' : σ} {m' : HashMap κ μ}
    (h : m.All P) (hf : ∀ k s v s' v', P k v → f s v = .ok (s', v') → Q k v')
    (htraverse : m.traverse f s = .ok (s', m')) : m'.All Q := by
  rw [traverse_eq_ok] at htraverse
  unfold All at h ⊢
  generalize m.entries = es at h htraverse
  generalize m'.entries = es' at htraverse ⊢
  induction es generalizing s es' with
  | nil =>
    simp only [traverseEntries, Except.ok.injEq, Prod.mk.injEq] at htraverse
    simp [← htraverse.2]
  | cons e es ih =>
    obtain ⟨k, v⟩ := e
    rw [List.forall_mem_cons] at h
    rw [traverseEntries] at htraverse
    split at htraverse
    · cases htraverse
    · rename_i hv
      split at htraverse
      · cases htraverse
      · rename_i htail
        cases htraverse
        rw [List.forall_mem_cons]
        exact ⟨hf _ _ _ _ _ h.1 hv, ih h.2 _ htail⟩

variable [DecidableEq κ]

theorem All.get? (h : m.All P) {k : κ} {v : ν} (hk : m.get? k = some v) : P k v :=
  h (k, v) ((get?_eq_some).mp hk)

theorem All.modify {k : κ} {f : ν → ν} (h : m.All P) (hf : ∀ v, P k v → P k (f v)) :
    (m.modify k f).All P := by
  refine h.mapVals fun k' v hv => ?_
  split
  · rename_i heq
    subst heq
    exact hf v hv
  · exact hv

theorem All.insert {k : κ} {v : ν} (h : m.All P) (hv : P k v) : (m.insert k v).All P := by
  unfold HashMap.insert
  split
  · exact h.modify fun _ _ => hv
  · intro e he
    rcases List.mem_append.mp he with he | he
    · exact h e he
    · rw [List.mem_singleton.mp he]
      exact hv

theorem All.insertAll {es : List (κ × ν)} (h : m.All P) (hes : ∀ e ∈ es, P e.1 e.2) :
    (m.insertAll es).All P := by
  induction es generalizing m with
  | nil => exact h
  | cons e es ih =>
    rw [List.forall_mem_cons] at hes
    exact ih (h.insert hes.1) hes.2

end All

end HashMap

end Foundation
