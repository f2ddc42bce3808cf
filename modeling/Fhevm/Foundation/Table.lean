import Fhevm.Foundation.HashMap

/-!
# Keyed tables

The rows of a database table, with distinct primary keys. Statements insert a row
unless its key is taken, or change or delete the rows that meet a condition.

## Main definitions

* `Table` — rows with distinct keys.
* `Table.insert`, `Table.update`, `Table.updateEach`, `Table.delete` — the statements.
* `Table.get?`, `Table.insertAll` — the row of a key, and the insertion of many rows.
* `Covers` — the elements of a list, in any order and any number of times.
* `Table.load`, `Table.BatchesAgree` — batches of rows, and when their order does not matter.
* `Table.Keeps` — the rows with a property stay, and keep it.
* `intoGroupMapBy` — the rows of a query by the value of a column.
-/

namespace Foundation

variable {α κ : Type*}

structure Table (key : α → κ) where
  rows : List α
  nodup : (rows.map key).Nodup

namespace Table

variable {key : α → κ}

/-- `INSERT … ON CONFLICT DO NOTHING` -/
def insert [DecidableEq κ] (t : Table key) (a : α) : Table key :=
  if h : key a ∈ t.rows.map key then t
  else
    { rows := t.rows ++ [a]
      nodup := by
        rw [List.map_append, List.nodup_append]
        refine ⟨t.nodup, by simp, ?_⟩
        rintro k hk k' hk' rfl
        simp only [List.map_cons, List.map_nil, List.mem_singleton] at hk'
        exact h (hk' ▸ hk) }

/-- `UPDATE … SET … WHERE …`; the columns that are set are not in the key. -/
def update (t : Table key) (p : α → Bool) (f : α → α) (hf : ∀ a, key (f a) = key a) :
    Table key where
  rows := t.rows.map fun a => if p a then f a else a
  nodup := by
    have hkeys : (t.rows.map fun a => if p a then f a else a).map key = t.rows.map key := by
      rw [List.map_map]
      refine List.map_congr_left fun a _ => ?_
      by_cases hp : p a <;> simp [hp, hf]
    rw [hkeys]
    exact t.nodup

@[simp] theorem rows_update (t : Table key) (p : α → Bool) (f : α → α)
    (hf : ∀ a, key (f a) = key a) :
    (t.update p f hf).rows = t.rows.map fun a => if p a then f a else a := rfl

/-- An update for each of some values, one after the other. -/
def updateEach {β : Type*} (t : Table key) (l : List β) (p : β → α → Bool) (f : β → α → α)
    (hf : ∀ b a, key (f b a) = key a) : Table key :=
  l.foldl (fun t b => t.update (p b) (f b) (hf b)) t

theorem rows_updateEach {β : Type*} (t : Table key) (l : List β) (p : β → α → Bool)
    (f : β → α → α) (hf : ∀ b a, key (f b a) = key a) :
    (t.updateEach l p f hf).rows =
      t.rows.map fun a => l.foldl (fun a b => if p b a then f b a else a) a := by
  induction l generalizing t with
  | nil => simp [updateEach]
  | cons b l ih =>
    have hstep : t.updateEach (b :: l) p f hf = (t.update (p b) (f b) (hf b)).updateEach l p f hf :=
      rfl
    rw [hstep, ih, rows_update, List.map_map]
    rfl

theorem eq_of_key_eq (t : Table key) {a b : α} (ha : a ∈ t.rows) (hb : b ∈ t.rows)
    (h : key a = key b) : a = b :=
  List.inj_on_of_nodup_map t.nodup ha hb h

theorem mem_insert_of_mem [DecidableEq κ] {t : Table key} {a b : α} (hb : b ∈ t.rows) :
    b ∈ (t.insert a).rows := by
  unfold insert
  split
  · exact hb
  · exact List.mem_append_left _ hb

theorem mem_insert [DecidableEq κ] {t : Table key} {a b : α} :
    b ∈ (t.insert a).rows ↔ b ∈ t.rows ∨ (key a ∉ t.rows.map key ∧ b = a) := by
  unfold insert
  split
  · next h => simp [h]
  · next h => simp [h]

/-- A property of all rows that the new row has too. -/
theorem forall_insert [DecidableEq κ] {t : Table key} {a : α} {P : α → Prop}
    (h : ∀ b ∈ t.rows, P b) (ha : P a) : ∀ b ∈ (t.insert a).rows, P b := by
  intro b hb
  obtain hb | ⟨-, rfl⟩ := mem_insert.mp hb
  · exact h b hb
  · exact ha

/-- A property of all rows that the rows which are set keep. -/
theorem forall_update {t : Table key} {p : α → Bool} {f : α → α} {hf : ∀ a, key (f a) = key a}
    {P : α → Prop} (h : ∀ a ∈ t.rows, P a) (hP : ∀ a, P a → P (f a)) :
    ∀ a ∈ (t.update p f hf).rows, P a := by
  intro b hb
  obtain ⟨a, ha, rfl⟩ := List.mem_map.mp hb
  split
  · exact hP a (h a ha)
  · exact h a ha

/-- A property of all rows that the rows which are selected keep. -/
theorem forall_update_where {t : Table key} {p : α → Bool} {f : α → α}
    {hf : ∀ a, key (f a) = key a} {P : α → Prop} (h : ∀ a ∈ t.rows, P a)
    (hP : ∀ a, p a = true → P a → P (f a)) : ∀ a ∈ (t.update p f hf).rows, P a := by
  intro b hb
  obtain ⟨a, ha, rfl⟩ := List.mem_map.mp hb
  split
  · next hp => exact hP a hp (h a ha)
  · exact h a ha

theorem forall_updateEach {β : Type*} {t : Table key} {l : List β} {p : β → α → Bool}
    {f : β → α → α} {hf : ∀ b a, key (f b a) = key a} {P : α → Prop} (h : ∀ a ∈ t.rows, P a)
    (hP : ∀ b ∈ l, ∀ a, p b a = true → P a → P (f b a)) :
    ∀ a ∈ (t.updateEach l p f hf).rows, P a := by
  induction l generalizing t with
  | nil => exact h
  | cons b l ih =>
    have hfirst := @forall_update_where _ _ _ _ _ _ (hf b) _ h (hP b List.mem_cons_self)
    exact ih hfirst fun b' hb' => hP b' (List.mem_cons_of_mem _ hb')

/-- `DELETE … WHERE …` -/
def delete (t : Table key) (p : α → Bool) : Table key where
  rows := t.rows.filter fun a => !p a
  nodup := t.nodup.sublist (List.filter_sublist.map key)

@[simp] theorem mem_delete {t : Table key} {p : α → Bool} {a : α} :
    a ∈ (t.delete p).rows ↔ a ∈ t.rows ∧ p a = false := by
  simp [delete]

/-! ## Many rows -/

section Lookup

variable [DecidableEq κ]

/-- The row of a key. -/
def get? (t : Table key) (k : κ) : Option α := t.rows.find? fun a => key a = k

theorem get?_eq_some {t : Table key} {k : κ} {a : α} : t.get? k = some a ↔ a ∈ t.rows ∧ key a = k := by
  constructor
  · intro h
    exact ⟨List.mem_of_find?_eq_some h, by simpa using List.find?_some h⟩
  · rintro ⟨ha, rfl⟩
    cases hget : t.get? (key a) with
    | none => simpa using List.find?_eq_none.mp hget a ha
    | some b =>
      have hb : key b = key a := by simpa using List.find?_some hget
      rw [t.eq_of_key_eq (List.mem_of_find?_eq_some hget) ha hb]

theorem get?_eq_none {t : Table key} {k : κ} : t.get? k = none ↔ k ∉ t.rows.map key := by
  simp [get?, List.find?_eq_none]

/-- A row that is there is not replaced. -/
theorem get?_insert (t : Table key) (a : α) (k : κ) :
    (t.insert a).get? k = (t.get? k).or ([a].find? fun b => key b = k) := by
  unfold insert
  split
  · next h =>
    cases hget : t.get? k with
    | some b => rfl
    | none =>
      have hne : key a ≠ k := fun hk => get?_eq_none.mp hget (hk ▸ h)
      simp [hne]
  · exact List.find?_append

/-- An update of the rows with some keys. -/
theorem get?_update_key (t : Table key) (q : κ → Bool) (f : α → α) (hf : ∀ a, key (f a) = key a)
    (k : κ) :
    (t.update (fun a => q (key a)) f hf).get? k =
      if q k then (t.get? k).map f else t.get? k := by
  apply Option.ext
  intro b
  have hmem : b ∈ (t.update (fun a => q (key a)) f hf).rows ↔
      ∃ a ∈ t.rows, (if q (key a) then f a else a) = b := by simp
  rw [get?_eq_some, hmem]
  by_cases hq : q k
  · rw [if_pos hq]
    simp only [Option.map_eq_some_iff, get?_eq_some]
    grind
  · rw [if_neg hq]
    simp only [get?_eq_some]
    grind

/-- Updates leave a row that none of them selects. -/
theorem get?_update_of (t : Table key) {p : α → Bool} {f : α → α} (hf : ∀ a, key (f a) = key a)
    {k : κ} (h : ∀ a, key a = k → t.get? k ≠ none → p a = false) :
    (t.update p f hf).get? k = t.get? k := by
  apply Option.ext
  intro b
  have hmem : b ∈ (t.update p f hf).rows ↔ ∃ a ∈ t.rows, (if p a then f a else a) = b := by simp
  have hfound : ∀ a ∈ t.rows, key a = k → p a = false := by
    intro a ha hkey
    refine h a hkey ?_
    rw [get?_eq_some.mpr ⟨ha, hkey⟩]
    exact Option.some_ne_none a
  rw [get?_eq_some, get?_eq_some, hmem]
  grind

theorem get?_updateEach_of {β : Type*} (t : Table key) {l : List β} {p : β → α → Bool}
    {f : β → α → α} (hf : ∀ b a, key (f b a) = key a) {k : κ}
    (h : ∀ b ∈ l, ∀ a, key a = k → t.get? k ≠ none → p b a = false) :
    (t.updateEach l p f hf).get? k = t.get? k := by
  induction l generalizing t with
  | nil => rfl
  | cons b l ih =>
    have hfirst := t.get?_update_of (hf b) (h b List.mem_cons_self)
    refine (ih _ fun b' hb' a hkey hne => ?_).trans hfirst
    exact h b' (List.mem_cons_of_mem _ hb') a hkey (hfirst ▸ hne)

theorem get?_delete_key (t : Table key) (q : κ → Bool) (k : κ) :
    (t.delete fun a => q (key a)).get? k = if q k then none else t.get? k := by
  apply Option.ext
  intro b
  rw [get?_eq_some, mem_delete]
  by_cases hq : q k
  · rw [if_pos hq]
    grind
  · rw [if_neg hq, get?_eq_some]
    grind

def insertAll (t : Table key) (rows : List α) : Table key := rows.foldl insert t

/-- The row of a key is the one that was there, or else the first that is inserted. -/
theorem get?_insertAll (t : Table key) (rows : List α) (k : κ) :
    (t.insertAll rows).get? k = (t.get? k).or (rows.find? fun a => key a = k) := by
  induction rows generalizing t with
  | nil => simp [insertAll]
  | cons a rows ih =>
    have hstep : t.insertAll (a :: rows) = (t.insert a).insertAll rows := rfl
    rw [hstep, ih, get?_insert, Option.or_assoc, ← List.find?_append, List.singleton_append]

/-- Only the keys of new rows are new. -/
theorem get?_insertAll_of (t : Table key) (rows : List α) {k : κ} (h : k ∉ rows.map key) :
    (t.insertAll rows).get? k = t.get? k := by
  have hnone : rows.find? (fun a => key a = k) = none := by
    simpa [List.find?_eq_none] using h
  rw [get?_insertAll, hnone, Option.or_none]

theorem mem_keys_insertAll {t : Table key} {rows : List α} {k : κ} :
    k ∈ (t.insertAll rows).rows.map key ↔ k ∈ t.rows.map key ∨ k ∈ rows.map key := by
  have hget := get?_insertAll t rows k
  have hnone : k ∉ (t.insertAll rows).rows.map key ↔
      k ∉ t.rows.map key ∧ k ∉ rows.map key := by
    rw [← get?_eq_none, hget, Option.or_eq_none_iff, get?_eq_none]
    simp [List.find?_eq_none]
  tauto

theorem mem_insertAll {t : Table key} {rows : List α} {a : α} (h : a ∈ (t.insertAll rows).rows) :
    a ∈ t.rows ∨ a ∈ rows := by
  induction rows generalizing t with
  | nil => exact .inl h
  | cons b rows ih =>
    obtain hmem | hmem := ih h
    · obtain hold | ⟨-, rfl⟩ := mem_insert.mp hmem
      · exact .inl hold
      · exact .inr List.mem_cons_self
    · exact .inr (List.mem_cons_of_mem _ hmem)

@[simp] theorem insertAll_nil (t : Table key) : t.insertAll [] = t := rfl

theorem insertAll_append (t : Table key) (rows rows' : List α) :
    t.insertAll (rows ++ rows') = (t.insertAll rows).insertAll rows' := List.foldl_append ..

/-- Two tables have the same rows, as far as `g` tells. -/
def SameRows {γ : Type*} (g : α → γ) (t t' : Table key) : Prop :=
  ∀ c, c ∈ t.rows.map g ↔ c ∈ t'.rows.map g

theorem sameRows_iff {γ : Type*} {g : α → γ} {key' : γ → κ} (hkey : ∀ a, key' (g a) = key a)
    {t t' : Table key} : SameRows g t t' ↔ ∀ k, (t.get? k).map g = (t'.get? k).map g := by
  have hmem : ∀ (t : Table key) c, c ∈ t.rows.map g ↔ (t.get? (key' c)).map g = some c := by
    intro t c
    simp only [List.mem_map, Option.map_eq_some_iff, get?_eq_some]
    constructor
    · rintro ⟨a, ha, rfl⟩
      exact ⟨a, ⟨ha, (hkey a).symm⟩, rfl⟩
    · rintro ⟨a, ⟨ha, -⟩, hc⟩
      exact ⟨a, ha, hc⟩
  constructor
  · intro h k
    apply Option.ext
    intro c
    by_cases hk : key' c = k
    · subst hk
      exact (hmem t c).symm.trans ((h c).trans (hmem t' c))
    · have hno : ∀ t : Table key, (t.get? k).map g ≠ some c := by
        intro t hget
        obtain ⟨a, ha, rfl⟩ := Option.map_eq_some_iff.mp hget
        exact hk ((hkey a).trans (get?_eq_some.mp ha).2)
      exact iff_of_false (hno t) (hno t')
  · intro h c
    rw [hmem t, hmem t', h]

end Lookup

/-! ## Properties that no statement takes away -/

/-- Every row with the property is still there under its key, and still has it. -/
def Keeps (P : α → Prop) (t t' : Table key) : Prop :=
  ∀ a ∈ t.rows, P a → ∃ a' ∈ t'.rows, key a' = key a ∧ P a'

namespace Keeps

variable {P : α → Prop} {t t' t'' : Table key}

theorem refl (t : Table key) : Keeps P t t := fun a ha hP => ⟨a, ha, rfl, hP⟩

theorem trans (h : Keeps P t t') (h' : Keeps P t' t'') : Keeps P t t'' := by
  intro a ha hP
  obtain ⟨b, hb, hkey, hP⟩ := h a ha hP
  obtain ⟨c, hc, hkey', hP⟩ := h' b hb hP
  exact ⟨c, hc, hkey'.trans hkey, hP⟩

theorem insert [DecidableEq κ] (t : Table key) (a : α) : Keeps P t (t.insert a) :=
  fun b hb hP => ⟨b, mem_insert_of_mem hb, rfl, hP⟩

theorem insertAll [DecidableEq κ] (t : Table key) (rows : List α) :
    Keeps P t (t.insertAll rows) := by
  induction rows generalizing t with
  | nil => exact refl t
  | cons a rows ih => exact (insert t a).trans (ih _)

theorem update (t : Table key) {p : α → Bool} {f : α → α} (hf : ∀ a, key (f a) = key a)
    (hP : ∀ a, p a = true → P a → P (f a)) : Keeps P t (t.update p f hf) := by
  intro a ha h
  refine ⟨_, List.mem_map_of_mem ha, ?_⟩
  by_cases hp : p a = true
  · rw [if_pos hp]
    exact ⟨hf a, hP a hp h⟩
  · rw [if_neg hp]
    exact ⟨rfl, h⟩

theorem updateEach {β : Type*} (t : Table key) {l : List β} {p : β → α → Bool} {f : β → α → α}
    (hf : ∀ b a, key (f b a) = key a) (hP : ∀ b a, p b a = true → P a → P (f b a)) :
    Keeps P t (t.updateEach l p f hf) := by
  induction l generalizing t with
  | nil => exact refl t
  | cons b l ih => exact (update t (hf b) (hP b)).trans (ih _)

/-- A kept property is the property of the row that has the key now. -/
theorem of_key_eq (h : Keeps P t t') {a a' : α} (ha : a ∈ t.rows) (hP : P a) (ha' : a' ∈ t'.rows)
    (hkey : key a' = key a) : P a' := by
  obtain ⟨b, hb, hkey', hPb⟩ := h a ha hP
  rwa [t'.eq_of_key_eq ha' hb (hkey.trans hkey'.symm)]

end Keeps

/-- The rows whose key has a property. -/
def rowsWhere (t : Table key) (q : κ → Bool) : List α := t.rows.filter fun a => q (key a)

theorem rowsWhere_update (t : Table key) {p : α → Bool} {f : α → α} {q : κ → Bool}
    (hf : ∀ a, key (f a) = key a) (hp : ∀ a, p a = true → q (key a) = false) :
    (t.update p f hf).rowsWhere q = t.rowsWhere q := by
  obtain ⟨rows, hnd⟩ := t
  simp only [rowsWhere, rows_update]
  clear hnd
  induction rows with
  | nil => rfl
  | cons a rows ih =>
    rw [List.map_cons, List.filter_cons, List.filter_cons, ih]
    by_cases hpa : p a = true
    · simp [hpa, hf, hp a hpa]
    · simp [hpa]

end Table

/-! ## Orders of insertion -/

section Orders

variable {δ γ : Type*}

/-- The elements of a list, in any order and any number of times. -/
def Covers (l ds : List δ) : Prop := ∀ d, d ∈ l ↔ d ∈ ds

/-- The first value that is found does not depend on the order exactly if all values agree. -/
theorem findSome?_eq_of_covers_iff (f : δ → Option γ) (ds : List δ) :
    (∀ l l', Covers l ds → Covers l' ds → l.findSome? f = l'.findSome? f) ↔
      ∀ d ∈ ds, ∀ d' ∈ ds, ∀ c c', f d = some c → f d' = some c' → c = c' := by
  constructor
  · intro h d hd d' hd' c c' hc hc'
    have hcovers : ∀ e ∈ ds, Covers (e :: ds) ds := fun e he x => by
      rw [List.mem_cons, or_iff_right_of_imp]
      rintro rfl
      exact he
    have hsame := h _ _ (hcovers d hd) (hcovers d' hd')
    rw [List.findSome?_cons, List.findSome?_cons, hc, hc'] at hsame
    exact Option.some.inj hsame
  · intro h l l' hl hl'
    have hfound : ∀ l₁ l₂, Covers l₁ ds → Covers l₂ ds → ∀ c, l₁.findSome? f = some c →
        l₂.findSome? f = some c := by
      intro l₁ l₂ h₁ h₂ c hc
      obtain ⟨d, hd, hfd⟩ := List.exists_of_findSome?_eq_some hc
      cases hc' : l₂.findSome? f with
      | none =>
        have hnone := List.findSome?_eq_none_iff.mp hc' d ((h₂ d).mpr ((h₁ d).mp hd))
        rw [hfd] at hnone
        cases hnone
      | some c' =>
        obtain ⟨d', hd', hfd'⟩ := List.exists_of_findSome?_eq_some hc'
        rw [h d ((h₁ d).mp hd) d' ((h₂ d').mp hd') c c' hfd hfd']
    apply Option.ext
    intro c
    exact ⟨hfound l l' hl hl' c, hfound l' l hl' hl c⟩

namespace Table

variable {β : Type*} {key : α → κ} [DecidableEq κ]

/-- Batches of rows, inserted one batch after the other. -/
def load (t : Table key) (rowsOf : β → List α) (l : List β) : Table key :=
  l.foldl (fun t b => t.insertAll (rowsOf b)) t

theorem get?_load (t : Table key) (rowsOf : β → List α) (l : List β) (k : κ) :
    (t.load rowsOf l).get? k =
      (t.get? k).or (l.findSome? fun b => (rowsOf b).find? fun a => key a = k) := by
  induction l generalizing t with
  | nil => simp [load]
  | cons b l ih =>
    have hstep : t.load rowsOf (b :: l) = (t.insertAll (rowsOf b)).load rowsOf l := rfl
    rw [hstep, ih, get?_insertAll, List.findSome?_cons, Option.or_assoc]
    cases (rowsOf b).find? fun a => key a = k <;> rfl

/-- No two batches have different first rows for a key that the table lacks. -/
def BatchesAgree (t : Table key) (key' : γ → κ) (rows : δ → List γ) (ds : List δ) : Prop :=
  ∀ d ∈ ds, ∀ d' ∈ ds, ∀ k, t.get? k = none → ∀ c c',
    ((rows d).find? fun c => key' c = k) = some c →
      ((rows d').find? fun c => key' c = k) = some c' → c = c'

section Content

variable {t : Table key} {rowsOf : β → List α} {π : β → δ} {g : α → γ} {key' : γ → κ}
  {rows : δ → List γ}

/-- What is in the table under a key, when `g` forgets all that `π` forgets of a batch. -/
theorem map_get?_load (hkey : ∀ a, key' (g a) = key a) (hrows : ∀ b, (rowsOf b).map g = rows (π b))
    (l : List β) (k : κ) :
    ((t.load rowsOf l).get? k).map g =
      ((t.get? k).map g).or
        ((l.map π).findSome? fun d => (rows d).find? fun c => key' c = k) := by
  have hfind : ∀ b, ((rowsOf b).find? fun a => key a = k).map g =
      (rows (π b)).find? fun c => key' c = k := by
    intro b
    rw [← hrows, List.find?_map]
    simp only [Function.comp_def, hkey]
  have hsome : (l.findSome? fun b => (rowsOf b).find? fun a => key a = k).map g =
      (l.map π).findSome? fun d => (rows d).find? fun c => key' c = k := by
    induction l with
    | nil => rfl
    | cons b l ih =>
      rw [List.findSome?_cons, List.map_cons, List.findSome?_cons, ← hfind]
      cases (rowsOf b).find? fun a => key a = k with
      | none => exact ih
      | some a => rfl
  rw [get?_load, ← hsome]
  cases t.get? k <;> rfl

variable (t rowsOf key')

/-- Batches lead to the same rows in all orders exactly if they agree on the keys that are new. -/
theorem sameRows_load_iff (hkey : ∀ a, key' (g a) = key a)
    (hrows : ∀ b, (rowsOf b).map g = rows (π b)) (hπ : Function.Surjective π) (ds : List δ) :
    (∀ l l', Covers (l.map π) ds → Covers (l'.map π) ds →
        SameRows g (t.load rowsOf l) (t.load rowsOf l')) ↔ t.BatchesAgree key' rows ds := by
  have hall : (∀ l l', Covers (l.map π) ds → Covers (l'.map π) ds →
      SameRows g (t.load rowsOf l) (t.load rowsOf l')) ↔
      ∀ k, t.get? k = none → ∀ l l', Covers l ds → Covers l' ds →
        (l.findSome? fun d => (rows d).find? fun c => key' c = k) =
          l'.findSome? fun d => (rows d).find? fun c => key' c = k := by
    constructor
    · intro h k hk l l' hl hl'
      obtain ⟨l, rfl⟩ := hπ.list_map l
      obtain ⟨l', rfl⟩ := hπ.list_map l'
      have hsame := (sameRows_iff hkey).mp (h l l' hl hl') k
      rwa [map_get?_load hkey hrows, map_get?_load hkey hrows, hk] at hsame
    · intro h l l' hl hl'
      refine (sameRows_iff hkey).mpr fun k => ?_
      rw [map_get?_load hkey hrows, map_get?_load hkey hrows]
      cases hk : t.get? k with
      | none => exact h k hk _ _ hl hl'
      | some a => rfl
  rw [hall]
  simp only [findSome?_eq_of_covers_iff]
  exact ⟨fun h d hd d' hd' k hk c c' => h k hk d hd d' hd' c c',
    fun h k hk d hd d' hd' c c' => h d hd d' hd' k hk c c'⟩

end Content

end Table

end Orders

/-! ## Grouping -/

section Group

variable [DecidableEq κ]

def addToGroup (f : α → κ) (m : HashMap κ (List α)) (a : α) : HashMap κ (List α) :=
  match m.get? (f a) with
  | some as => m.insert (f a) (as ++ [a])
  | none => m.insert (f a) [a]

/-- The rows by the value of a column, each group in the order of the rows. -/
def intoGroupMapBy (f : α → κ) (l : List α) : HashMap κ (List α) :=
  l.foldl (addToGroup f) HashMap.empty

theorem intoGroupMapBy_concat (f : α → κ) (l : List α) (a : α) :
    intoGroupMapBy f (l ++ [a]) = addToGroup f (intoGroupMapBy f l) a := by
  simp [intoGroupMapBy]

theorem get?_intoGroupMapBy (f : α → κ) (l : List α) (k : κ) :
    (intoGroupMapBy f l).get? k =
      if l.filter (fun a => f a = k) = [] then none else some (l.filter fun a => f a = k) := by
  induction l using List.reverseRecOn with
  | nil => simp [intoGroupMapBy]
  | append_singleton l a ih =>
    have hget : ∀ as, (HashMap.insert (intoGroupMapBy f l) (f a) as).get? k =
        if f a = k then some as else (intoGroupMapBy f l).get? k := by
      intro as
      rw [HashMap.get?_insert]
      simp [eq_comm]
    rw [intoGroupMapBy_concat, addToGroup, List.filter_append]
    by_cases hk : f a = k
    · subst hk
      rw [ih]
      by_cases hnil : l.filter (fun b => f b = f a) = []
      · simp [hnil, hget]
      · simp [hnil, hget]
    · split <;> simp [hget, hk, ih]

/-- A group holds the rows with its value, and there is one for every value. -/
theorem mem_intoGroupMapBy {f : α → κ} {l : List α} {k : κ} {as : List α} :
    (k, as) ∈ (intoGroupMapBy f l).entries ↔ as = l.filter (fun a => f a = k) ∧ as ≠ [] := by
  rw [← HashMap.get?_eq_some, get?_intoGroupMapBy]
  split
  · rename_i hnil
    simp [hnil]
  · rename_i hne
    grind

end Group

end Foundation
