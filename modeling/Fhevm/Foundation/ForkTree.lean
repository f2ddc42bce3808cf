import Mathlib

/-!
# Trees of numbered nodes

Nodes with parents, where the number of a node is one more than that of its parent. The ancestors
of a node form a chain, and forks share the ancestors below them.

## Main definitions

* `ForkTree` — the parents and numbers of nodes.
* `ForkTree.Ancestor` — a node, its parent, the parent of that, and so on.
* `ForkTree.Path` — the nodes between a node and one of its ancestors.
-/

namespace Foundation

structure ForkTree (β : Type*) where
  parent : β → Option β
  number : β → ℕ
  number_parent : ∀ {b p}, parent b = some p → number p + 1 = number b

namespace ForkTree

variable {β : Type*} (T : ForkTree β)

/-- The nodes from a node upwards, itself among them. -/
inductive Ancestor (a : β) : β → Prop
  | refl : Ancestor a a
  | step {p b : β} : T.parent b = some p → Ancestor a p → Ancestor a b

namespace Ancestor

variable {T} {a b c p : β}

theorem trans (hab : T.Ancestor a b) (hbc : T.Ancestor b c) : T.Ancestor a c := by
  induction hbc with
  | refl => exact hab
  | step hparent _ ih => exact .step hparent ih

theorem parent (h : T.parent b = some p) : T.Ancestor p b := .step h .refl

theorem number_le (h : T.Ancestor a b) : T.number a ≤ T.number b := by
  induction h with
  | refl => exact le_rfl
  | step hparent _ ih =>
    have hnumber := T.number_parent hparent
    omega

/-- A proper ancestor is one of the parent. -/
theorem eq_or_parent (h : T.Ancestor a b) : a = b ∨ ∃ p, T.parent b = some p ∧ T.Ancestor a p := by
  cases h with
  | refl => exact .inl rfl
  | step hparent h => exact .inr ⟨_, hparent, h⟩

theorem eq_of_number_eq (h : T.Ancestor a b) (hnumber : T.number a = T.number b) : a = b := by
  obtain rfl | ⟨p, hparent, h⟩ := h.eq_or_parent
  · rfl
  · have hle := h.number_le
    have hparent := T.number_parent hparent
    omega

/-- The ancestors of a node form a chain. -/
theorem of_number_le (ha : T.Ancestor a c) (hb : T.Ancestor b c)
    (hnumber : T.number a ≤ T.number b) : T.Ancestor a b := by
  induction hb with
  | refl => exact ha
  | step hparent hb ih =>
    obtain rfl | ⟨p', hparent', ha⟩ := ha.eq_or_parent
    · -- both have the largest number
      have hba := Ancestor.step hparent hb
      have hle := hba.number_le
      rw [hba.eq_of_number_eq (by omega)]
      exact .refl
    · obtain rfl := Option.some.inj (hparent'.symm.trans hparent)
      exact ih ha

theorem number_lt (h : T.Ancestor a b) (hne : a ≠ b) : T.number a < T.number b :=
  lt_of_le_of_ne h.number_le fun heq => hne (h.eq_of_number_eq heq)

end Ancestor

/-- The nodes strictly between an ancestor and a node, from the ancestor on. -/
inductive Path (a : β) : List β → β → Prop
  | parent {b : β} : T.parent b = some a → Path a [] b
  | step {l : List β} {p b : β} : T.parent b = some p → Path a l p → Path a (l ++ [p]) b

theorem Ancestor.exists_path {T : ForkTree β} {a b : β} (h : T.Ancestor a b) (hne : a ≠ b) :
    ∃ l, T.Path a l b := by
  induction h with
  | refl => exact absurd rfl hne
  | @step p b hparent _ ih =>
    by_cases hp : a = p
    · subst hp
      exact ⟨[], .parent hparent⟩
    · obtain ⟨l, hl⟩ := ih hp
      exact ⟨_, .step hparent hl⟩

namespace Path

variable {T} {a b c : β} {l : List β}

theorem number_eq (h : T.Path a l b) : T.number b = T.number a + l.length + 1 := by
  induction h with
  | parent hparent => exact (T.number_parent hparent).symm
  | step hparent _ ih =>
    have hnumber := T.number_parent hparent
    simp only [List.length_append, List.length_singleton]
    omega

/-- The nodes of a path are the ancestors that are younger than its start. -/
theorem mem_iff (h : T.Path a l b) : c ∈ l ↔ T.Ancestor c b ∧ c ≠ b ∧ T.number a < T.number c := by
  -- a proper ancestor of a node is one of its parent
  have hproper : ∀ {p b : β}, T.parent b = some p →
      (T.Ancestor c b ∧ c ≠ b ↔ T.Ancestor c p) := by
    intro p b hparent
    constructor
    · rintro ⟨hc, hne⟩
      obtain ⟨p', hparent', hc⟩ := hc.eq_or_parent.resolve_left hne
      obtain rfl := Option.some.inj (hparent'.symm.trans hparent)
      exact hc
    · intro hc
      refine ⟨.step hparent hc, ?_⟩
      rintro rfl
      have hle := hc.number_le
      have hnumber := T.number_parent hparent
      omega
  induction h with
  | parent hparent =>
    rw [← and_assoc, hproper hparent]
    have hle : T.Ancestor c a → T.number c ≤ T.number a := Ancestor.number_le
    grind
  | @step l p b hparent hpath ih =>
    rw [← and_assoc, hproper hparent, List.mem_append, List.mem_singleton]
    have hnumber := hpath.number_eq
    constructor
    · rintro (hc | rfl)
      · obtain ⟨hc, -, hlt⟩ := ih.mp hc
        exact ⟨hc, hlt⟩
      · exact ⟨.refl, by omega⟩
    · rintro ⟨hc, hlt⟩
      by_cases heq : c = p
      · exact .inr heq
      · exact .inl (ih.mpr ⟨hc, heq, hlt⟩)

theorem pairwise_number (h : T.Path a l b) : l.Pairwise fun c d => T.number c < T.number d := by
  induction h with
  | parent => exact .nil
  | step hparent hpath ih =>
    refine List.pairwise_append.mpr ⟨ih, List.pairwise_singleton _ _, fun c hc d hd => ?_⟩
    obtain ⟨hc, hne, -⟩ := hpath.mem_iff.mp hc
    rw [List.mem_singleton.mp hd]
    exact hc.number_lt hne

end Path

end ForkTree

end Foundation
