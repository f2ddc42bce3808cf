import Mathlib

/-!
# Computations that may panic

A computation returns a value or an error, or it panics. A panic is neither.

## Main definitions

* `Panics` — the computations.
* `Panics.ofOption`, `Panics.ofExcept` — steps that panic, and steps that fail.
* `Panics.mapM_eq_none` — a list panics at the first element that is not a value.
-/

namespace Foundation

variable {ε α β : Type}

abbrev Panics (ε α : Type) := ExceptT ε Option α

namespace Panics

/-- A step that panics where there is no value. -/
def ofOption (o : Option α) : Panics ε α := ExceptT.mk (o.map .ok)

/-- A step that does not panic. -/
def ofExcept (x : Except ε α) : Panics ε α := ExceptT.mk (some x)

@[simp] theorem ofOption_eq_none {o : Option α} :
    (ofOption o : Panics ε α).run = none ↔ o = none := Option.map_eq_none_iff

@[simp] theorem ofOption_eq_ok {o : Option α} {a : α} :
    (ofOption o : Panics ε α).run = some (.ok a) ↔ o = some a := by
  change o.map Except.ok = _ ↔ _
  cases o <;> simp

@[simp] theorem ofExcept_eq_none {x : Except ε α} : (ofExcept x).run = none ↔ False := by
  change some x = none ↔ False
  simp

@[simp] theorem ofExcept_eq_ok {x : Except ε α} {a : α} :
    (ofExcept x).run = some (.ok a) ↔ x = .ok a := by
  change some x = _ ↔ _
  simp

@[simp] theorem throw_eq_none {e : ε} : (throw e : Panics ε α).run = none ↔ False := by
  change some (Except.error e) = none ↔ False
  simp

@[simp] theorem throw_eq_ok {e : ε} {a : α} :
    (throw e : Panics ε α).run = some (.ok a) ↔ False := by
  change some (Except.error e) = _ ↔ False
  simp

@[simp] theorem pure_eq_none {a : α} : (pure a : Panics ε α).run = none ↔ False := by
  change some (Except.ok a) = none ↔ False
  simp

@[simp] theorem pure_eq_ok {a b : α} : (pure a : Panics ε α).run = some (.ok b) ↔ a = b := by
  change some (Except.ok a) = _ ↔ _
  simp

theorem bind_eq_ok {x : Panics ε α} {f : α → Panics ε β} {b : β} :
    (x >>= f).run = some (.ok b) ↔ ∃ a, x.run = some (.ok a) ∧ (f a).run = some (.ok b) := by
  rw [ExceptT.run_bind]
  cases hx : x.run with
  | none => simp
  | some r => cases r <;> simp

/-- A step panics, or the rest does. -/
theorem bind_eq_none {x : Panics ε α} {f : α → Panics ε β} :
    (x >>= f).run = none ↔ x.run = none ∨ ∃ a, x.run = some (.ok a) ∧ (f a).run = none := by
  rw [ExceptT.run_bind]
  cases hx : x.run with
  | none => simp
  | some r => cases r <;> simp

/-- A computation whose steps do not panic does not panic. -/
theorem bind_ne_none {x : Panics ε α} {f : α → Panics ε β} (hx : x.run ≠ none)
    (hf : ∀ a, x.run = some (.ok a) → (f a).run ≠ none) : (x >>= f).run ≠ none := by
  rw [ne_eq, bind_eq_none]
  rintro (hnone | ⟨a, ha, hnone⟩)
  · exact hx hnone
  · exact hf a ha hnone

theorem mapM_eq_ok {f : α → Panics ε β} {as : List α} {bs : List β} :
    (as.mapM f).run = some (.ok bs) ↔ List.Forall₂ (fun a b => (f a).run = some (.ok b)) as bs := by
  induction as generalizing bs with
  | nil => simp [eq_comm]
  | cons a as ih =>
    simp only [List.mapM_cons, bind_eq_ok, pure_eq_ok, ih, List.forall₂_cons_left_iff]
    constructor
    · rintro ⟨b, hb, rest, hrest, rfl⟩
      exact ⟨b, rest, hb, hrest, rfl⟩
    · rintro ⟨b, rest, hb, hrest, rfl⟩
      exact ⟨b, hb, rest, hrest, rfl⟩

/-- The elements of a list are taken in turn, up to the first one that is not a value. -/
theorem mapM_eq_none {f : α → Panics ε β} {as : List α} :
    (as.mapM f).run = none ↔ ∃ before a after, as = before ++ a :: after ∧
      (∀ b ∈ before, ∃ c, (f b).run = some (.ok c)) ∧ (f a).run = none := by
  induction as with
  | nil => simp
  | cons a as ih =>
    simp only [List.mapM_cons, bind_eq_none, pure_eq_none, and_false, exists_false, or_false, ih]
    constructor
    · rintro (hnone | ⟨b, hb, before, a', after, rfl, hbefore, hnone⟩)
      · exact ⟨[], a, as, rfl, by simp, hnone⟩
      · exact ⟨a :: before, a', after, rfl, List.forall_mem_cons.mpr ⟨⟨b, hb⟩, hbefore⟩, hnone⟩
    · rintro ⟨before, a', after, has, hbefore, hnone⟩
      cases before with
      | nil =>
        obtain ⟨rfl, -⟩ := List.cons.inj has
        exact .inl hnone
      | cons first before =>
        obtain ⟨rfl, rfl⟩ := List.cons.inj has
        obtain ⟨⟨b, hb⟩, hbefore⟩ := List.forall_mem_cons.mp hbefore
        exact .inr ⟨b, hb, before, a', after, rfl, hbefore, hnone⟩

end Panics

end Foundation
