import Fhevm.Foundation.Table

/-!
# Leases on rows

A row that is marked is worked on by a holder, who unmarks or deletes it in the end. The mark is in
the table, but the holder is not.

## Main definitions

* `Table.Held` — every marked row has a holder.
* `Table.Held.take`, `Table.Held.release`, `Table.Held.deleteKey` — a holder gets rows, and ends.
-/

namespace Foundation

variable {α κ : Type*}

/-- What is left of a list without an element has the values of all others. -/
theorem mem_map_eraseIdx {β γ : Type*} {f : β → γ} {l : List β} {i : ℕ} {b : β} {c : γ}
    (hb : l[i]? = some b) (hc : c ∈ l.map f) (hne : c ≠ f b) : c ∈ (l.eraseIdx i).map f := by
  obtain ⟨b', hb', rfl⟩ := List.mem_map.mp hc
  refine List.mem_map_of_mem (List.mem_eraseIdx_iff_getElem?.mpr ?_)
  obtain ⟨j, hj⟩ := List.mem_iff_getElem?.mp hb'
  refine ⟨j, ?_, hj⟩
  rintro rfl
  rw [hb, Option.some.injEq] at hj
  exact hne (hj ▸ rfl)

/-! ## Reading rows -/

section Reading

variable {β γ : Type*} {f : α → Option β} {as : List α} {bs : List β}

theorem mapM_cons_eq_some {a : α} : (a :: as).mapM f = some bs ↔
    ∃ b bs', f a = some b ∧ as.mapM f = some bs' ∧ bs = b :: bs' := by
  simp only [List.mapM_cons, Option.bind_eq_bind, Option.bind_eq_some_iff, Option.pure_def,
    Option.some.injEq]
  grind

/-- Rows that can all be read can be read together. -/
theorem exists_mapM (h : ∀ a ∈ as, (f a).isSome) : ∃ bs, as.mapM f = some bs := by
  induction as with
  | nil => exact ⟨[], rfl⟩
  | cons a as ih =>
    obtain ⟨b, hb⟩ := Option.isSome_iff_exists.mp (h a List.mem_cons_self)
    obtain ⟨bs, hbs⟩ := ih fun a' ha' => h a' (List.mem_cons_of_mem a ha')
    exact ⟨b :: bs, mapM_cons_eq_some.mpr ⟨b, bs, hb, hbs, rfl⟩⟩

/-- A value that each row keeps when it is read. -/
theorem map_of_mapM {g : β → γ} {g' : α → γ} (hread : ∀ a b, f a = some b → g b = g' a)
    (h : as.mapM f = some bs) : bs.map g = as.map g' := by
  induction as generalizing bs with
  | nil =>
    obtain rfl := Option.some.inj h
    rfl
  | cons a as ih =>
    obtain ⟨b, bs, hb, hbs, rfl⟩ := mapM_cons_eq_some.mp h
    rw [List.map_cons, List.map_cons, hread a b hb, ih hbs]

/-- What is read is one of the rows. -/
theorem exists_of_mem_mapM_some (h : as.mapM f = some bs) {b : β} (hb : b ∈ bs) :
    ∃ a ∈ as, f a = some b := by
  induction as generalizing bs with
  | nil =>
    obtain rfl := Option.some.inj h
    cases hb
  | cons a as ih =>
    obtain ⟨b', bs, hb', hbs, rfl⟩ := mapM_cons_eq_some.mp h
    obtain rfl | hb := List.mem_cons.mp hb
    · exact ⟨a, List.mem_cons_self, hb'⟩
    · obtain ⟨a', ha', hab⟩ := ih hbs hb
      exact ⟨a', List.mem_cons_of_mem a ha', hab⟩

end Reading

namespace Table

variable {key : α → κ}

/-- Every marked row has a holder. -/
def Held (marked : α → Bool) (t : Table key) (holders : List κ) : Prop :=
  ∀ a ∈ t.rows, marked a = true → key a ∈ holders

namespace Held

variable {marked : α → Bool} {t : Table key} {holders holders' : List κ}

theorem mono (h : Held marked t holders) (hsub : ∀ k ∈ holders, k ∈ holders') :
    Held marked t holders' :=
  fun a ha hmarked => hsub _ (h a ha hmarked)

theorem insert [DecidableEq κ] (h : Held marked t holders) {a : α} (ha : marked a = false) :
    Held marked (t.insert a) holders := by
  intro b hb hmarked
  obtain hb | ⟨-, rfl⟩ := mem_insert.mp hb
  · exact h b hb hmarked
  · rw [ha] at hmarked
    cases hmarked

/-- Rows are marked for somebody. -/
theorem take (h : Held marked t holders) {p : α → Bool} {f : α → α} (hf : ∀ a, key (f a) = key a)
    {taken : List κ} (hp : ∀ a ∈ t.rows, p a = true → key a ∈ taken) :
    Held marked (t.update p f hf) (holders ++ taken) := by
  intro b hb hmarked
  obtain ⟨a, ha, rfl⟩ := List.mem_map.mp hb
  split_ifs at hmarked ⊢ with hpa
  · rw [hf]
    exact List.mem_append_right _ (hp a ha hpa)
  · exact List.mem_append_left _ (h a ha hmarked)

variable [DecidableEq κ] {k : κ}

/-- The row of a key is unmarked. -/
theorem release (h : Held marked t holders) {f : α → α} (hf : ∀ a, key (f a) = key a)
    (hunmarked : ∀ a, marked (f a) = false) (hothers : ∀ k' ∈ holders, k' ≠ k → k' ∈ holders') :
    Held marked (t.update (fun a => key a = k) f hf) holders' := by
  intro b hb hmarked
  obtain ⟨a, ha, rfl⟩ := List.mem_map.mp hb
  split_ifs at hmarked ⊢ with hk
  · rw [hunmarked] at hmarked
    cases hmarked
  · exact hothers _ (h a ha hmarked) (by simpa using hk)

/-- The row of a key is deleted. -/
theorem deleteKey (h : Held marked t holders)
    (hothers : ∀ k' ∈ holders, k' ≠ k → k' ∈ holders') :
    Held marked (t.delete fun a => key a = k) holders' := by
  intro a ha hmarked
  obtain ⟨ha, hk⟩ := mem_delete.mp ha
  exact hothers _ (h a ha hmarked) (by simpa using hk)

end Held

end Table

end Foundation
