import Mathlib

/-!
# Replacement in texts

The occurrences of a pattern are replaced from left to right, and those that overlap an occurrence
before them stay. A text is a list over any type.

## Main definitions

* `replaceAll` — the text with all occurrences of a pattern replaced.
* `weight` — the sum of a number for each element.
* `replace_induction` — induction along the occurrences.
* `weight_replaceAll_lt` — a replacement by something lighter makes a text lighter.
-/

namespace Foundation

variable {α : Type*}

/-! ## Patterns -/

theorem not_infix_of_not_mem {p t : List α} {c : α} (hp : c ∈ p) (ht : c ∉ t) : ¬ p <:+: t :=
  fun h => ht (h.subset hp)

/-- A pattern without an element does not reach over it. -/
theorem prefix_append_cons {p s t : List α} {c : α} (hc : c ∉ p) :
    p <+: s ++ c :: t ↔ p <+: s := by
  refine ⟨fun h => ?_, fun h => h.trans (List.prefix_append _ _)⟩
  obtain hps | ⟨r, rfl⟩ := List.prefix_or_prefix_of_prefix h (List.prefix_append s (c :: t))
  · exact hps
  · cases r with
    | nil => simp
    | cons d r =>
      rw [List.prefix_append_right_inj, List.cons_prefix_cons] at h
      simp [h.1] at hc

theorem infix_append_cons {p s t : List α} {c : α} (hc : c ∉ p) :
    p <:+: s ++ c :: t ↔ p <:+: s ∨ p <:+: t := by
  induction s with
  | nil =>
    have hstart : p <+: c :: t ↔ p <+: [] := prefix_append_cons (s := []) hc
    rw [List.nil_append, List.infix_cons_iff, hstart, List.prefix_nil, List.infix_nil]
  | cons a s ih =>
    have hstart : p <+: a :: (s ++ c :: t) ↔ p <+: a :: s := prefix_append_cons (s := a :: s) hc
    rw [List.cons_append, List.infix_cons_iff, List.infix_cons_iff, hstart, ih, or_assoc]

/-- A pattern is not found behind a text if the rest has none of its elements. -/
theorem infix_append_of_disjoint {p s t : List α} (hp : p ≠ []) (h : ∀ c ∈ t, c ∉ p) :
    p <:+: s ++ t ↔ p <:+: s := by
  cases t with
  | nil => rw [List.append_nil]
  | cons c t =>
    rw [List.forall_mem_cons] at h
    obtain ⟨a, ha⟩ := List.exists_mem_of_ne_nil p hp
    rw [infix_append_cons h.1, or_iff_left (not_infix_of_not_mem ha fun hat => h.2 a hat ha)]

/-! ## Replacement -/

section Replace

variable [DecidableEq α] {p q s t : List α}

/-- Replace, where `skip` elements still belong to the last occurrence. -/
def replaceFrom (p q : List α) : ℕ → List α → List α
  | _, [] => []
  | skip + 1, _ :: t => replaceFrom p q skip t
  | 0, a :: t =>
    if p <+: a :: t then q ++ replaceFrom p q (p.length - 1) t else a :: replaceFrom p q 0 t

/-- Replace all occurrences of a pattern that is not empty. -/
def replaceAll (p q t : List α) : List α := replaceFrom p q 0 t

@[simp] theorem replaceAll_nil : replaceAll p q [] = [] := rfl

theorem replaceFrom_eq (skip : ℕ) : replaceFrom p q skip t = replaceAll p q (t.drop skip) := by
  induction skip generalizing t with
  | zero => rfl
  | succ skip ih =>
    cases t with
    | nil => rfl
    | cons a t => exact ih

theorem replaceAll_append (hp : p ≠ []) : replaceAll p q (p ++ t) = q ++ replaceAll p q t := by
  obtain ⟨a, p', rfl⟩ := List.exists_cons_of_ne_nil hp
  have hstart : a :: p' <+: a :: (p' ++ t) := List.prefix_append (a :: p') t
  rw [List.cons_append, replaceAll, replaceFrom, if_pos hstart, replaceFrom_eq]
  simp

theorem replaceAll_cons {a : α} (h : ¬ p <+: a :: t) :
    replaceAll p q (a :: t) = a :: replaceAll p q t := by
  rw [replaceAll, replaceFrom, if_neg h, replaceAll]

/-- Induction along a text: its start is an occurrence, or no occurrence starts there. -/
theorem replace_induction {motive : List α → Prop} (hp : p ≠ []) (nil : motive [])
    (occurrence : ∀ t, motive t → motive (p ++ t))
    (cons : ∀ a t, ¬ p <+: a :: t → motive t → motive (a :: t)) (t : List α) : motive t := by
  induction hn : t.length using Nat.strong_induction_on generalizing t with
  | _ n ih =>
    subst hn
    by_cases h : p <+: t
    · obtain ⟨t, rfl⟩ := h
      have hpos := List.length_pos_of_ne_nil hp
      exact occurrence t (ih t.length (by rw [List.length_append]; omega) t rfl)
    · cases t with
      | nil => exact nil
      | cons a t => exact cons a t h (ih t.length (Nat.lt_succ_self _) t rfl)

theorem replaceAll_eq_self (h : ¬ p <:+: t) : replaceAll p q t = t := by
  induction t with
  | nil => rfl
  | cons a t ih =>
    rw [List.infix_cons_iff, not_or] at h
    rw [replaceAll_cons h.1, ih h.2]

/-- An element that is not in the pattern cuts the text. -/
theorem replaceAll_append_cons (hp : p ≠ []) {c : α} (hc : c ∉ p) (s t : List α) :
    replaceAll p q (s ++ c :: t) = replaceAll p q s ++ c :: replaceAll p q t := by
  induction s using replace_induction hp with
  | nil =>
    have hstart : ¬ p <+: c :: t := fun h =>
      hp (List.prefix_nil.mp ((prefix_append_cons (s := []) hc).mp h))
    exact replaceAll_cons hstart
  | occurrence s ih =>
    rw [List.append_assoc, replaceAll_append hp, ih, replaceAll_append hp, List.append_assoc]
  | cons a s h ih =>
    have hstart : ¬ p <+: a :: (s ++ c :: t) := mt (prefix_append_cons (s := a :: s) hc).mp h
    rw [List.cons_append, replaceAll_cons hstart, ih, replaceAll_cons h, List.cons_append]

theorem replaceAll_append_of_disjoint (hp : p ≠ []) (h : ∀ c ∈ t, c ∉ p) :
    replaceAll p q (s ++ t) = replaceAll p q s ++ t := by
  cases t with
  | nil => rw [List.append_nil, List.append_nil]
  | cons c t =>
    rw [List.forall_mem_cons] at h
    obtain ⟨a, ha⟩ := List.exists_mem_of_ne_nil p hp
    rw [replaceAll_append_cons hp h.1,
      replaceAll_eq_self (not_infix_of_not_mem ha fun hat => h.2 a hat ha)]

theorem replaceAll_ne_nil (hp : p ≠ []) (hq : q ≠ []) (ht : t ≠ []) : replaceAll p q t ≠ [] := by
  induction t using replace_induction hp with
  | nil => exact absurd rfl ht
  | occurrence t ih => simp [replaceAll_append hp, hq]
  | cons a t hstart ih => simp [replaceAll_cons hstart]

/-- The elements come from the text or from the replacement. -/
theorem mem_or_mem_of_mem_replaceAll (hp : p ≠ []) {c : α} (h : c ∈ replaceAll p q t) :
    c ∈ t ∨ c ∈ q := by
  induction t using replace_induction hp with
  | nil => cases h
  | occurrence t ih =>
    rw [replaceAll_append hp, List.mem_append] at h
    grind
  | cons a t hstart ih =>
    rw [replaceAll_cons hstart, List.mem_cons] at h
    grind

end Replace

/-! ## Weights -/

def weight (w : α → ℕ) (t : List α) : ℕ := (t.map w).sum

section Weight

variable {w : α → ℕ} {p q s t : List α}

@[simp] theorem weight_nil : weight w [] = 0 := rfl

@[simp] theorem weight_cons {a : α} : weight w (a :: t) = w a + weight w t := by simp [weight]

@[simp] theorem weight_append : weight w (s ++ t) = weight w s + weight w t := by simp [weight]

theorem weight_one : weight (fun _ => 1) t = t.length := by simp [weight]

theorem weight_le_of_prefix (h : s <+: t) : weight w s ≤ weight w t := by
  obtain ⟨r, rfl⟩ := h
  rw [weight_append]
  omega

variable [DecidableEq α]

theorem weight_replaceAll_le (hp : p ≠ []) (h : weight w q ≤ weight w p) (t : List α) :
    weight w (replaceAll p q t) ≤ weight w t := by
  induction t using replace_induction hp with
  | nil => exact le_rfl
  | occurrence t ih =>
    rw [replaceAll_append hp, weight_append, weight_append]
    omega
  | cons a t hstart ih =>
    rw [replaceAll_cons hstart, weight_cons, weight_cons]
    omega

theorem weight_replaceAll_lt (hp : p ≠ []) (h : weight w q < weight w p) (hoccurs : p <:+: t) :
    weight w (replaceAll p q t) < weight w t := by
  induction t using replace_induction hp with
  | nil => exact absurd (List.infix_nil.mp hoccurs) hp
  | occurrence t ih =>
    have hle := weight_replaceAll_le hp h.le t
    rw [replaceAll_append hp, weight_append, weight_append]
    omega
  | cons a t hstart ih =>
    have hlt := ih ((List.infix_cons_iff.mp hoccurs).resolve_left hstart)
    rw [replaceAll_cons hstart, weight_cons, weight_cons]
    omega

end Weight

end Foundation
