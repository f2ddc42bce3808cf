import Mathlib

/-!
# Texts and their bytes

A text in UTF-8 is cut at byte offsets. An offset inside a character is not allowed.

## Main definitions

* `utf8Len` — the number of bytes of a text.
* `IsCharBoundary` — an offset between characters, or at an end.
* `splitAtByte`, `sliceBytes` — the parts of a text at offsets, if the offsets are allowed.
-/

namespace Foundation

def utf8Len (text : List Char) : ℕ := (text.map Char.utf8Size).sum

@[simp] theorem utf8Len_nil : utf8Len [] = 0 := rfl

@[simp] theorem utf8Len_cons (c : Char) (text : List Char) :
    utf8Len (c :: text) = c.utf8Size + utf8Len text := rfl

@[simp] theorem utf8Len_append (front back : List Char) :
    utf8Len (front ++ back) = utf8Len front + utf8Len back := by
  simp [utf8Len]

theorem utf8Len_eq_zero {text : List Char} : utf8Len text = 0 ↔ text = [] := by
  cases text with
  | nil => simp
  | cons c text =>
    have hpos := c.utf8Size_pos
    simp only [utf8Len_cons, reduceCtorEq, iff_false]
    omega

/-- The bytes of characters that have one byte each. -/
theorem utf8Len_eq_length {text : List Char} (h : ∀ c ∈ text, c.utf8Size = 1) :
    utf8Len text = text.length := by
  induction text with
  | nil => rfl
  | cons c text ih =>
    rw [List.forall_mem_cons] at h
    rw [utf8Len_cons, ih h.2, h.1, List.length_cons, Nat.add_comm]

def IsCharBoundary (text : List Char) (n : ℕ) : Prop :=
  ∃ front back, text = front ++ back ∧ utf8Len front = n

def splitAtByte : List Char → ℕ → Option (List Char × List Char)
  | text, 0 => some ([], text)
  | [], _ + 1 => none
  | c :: text, n + 1 =>
    if c.utf8Size ≤ n + 1 then
      (splitAtByte text (n + 1 - c.utf8Size)).map fun parts => (c :: parts.1, parts.2)
    else none

theorem splitAtByte_eq_some {text front back : List Char} {n : ℕ} :
    splitAtByte text n = some (front, back) ↔ text = front ++ back ∧ utf8Len front = n := by
  induction text generalizing n front back with
  | nil =>
    cases n with
    | zero =>
      simp only [splitAtByte, Option.some.injEq, Prod.mk.injEq]
      grind [utf8Len_eq_zero]
    | succ n =>
      simp only [splitAtByte, reduceCtorEq, false_iff, not_and]
      intro hnil
      obtain ⟨rfl, -⟩ := List.append_eq_nil_iff.mp hnil.symm
      simp
  | cons c text ih =>
    have hpos := c.utf8Size_pos
    cases n with
    | zero =>
      simp only [splitAtByte, Option.some.injEq, Prod.mk.injEq, utf8Len_eq_zero]
      grind
    | succ n =>
      unfold splitAtByte
      split_ifs with hfits
      · simp only [Option.map_eq_some_iff, Prod.exists, ih, Prod.mk.injEq]
        constructor
        · rintro ⟨rest, _, ⟨rfl, hlen⟩, rfl, rfl⟩
          refine ⟨rfl, ?_⟩
          rw [utf8Len_cons]
          omega
        · rintro ⟨htext, hlen⟩
          cases front with
          | nil => simp at hlen
          | cons d rest =>
            obtain ⟨rfl, rfl⟩ := List.cons.inj htext
            rw [utf8Len_cons] at hlen
            exact ⟨rest, back, ⟨rfl, by omega⟩, rfl, rfl⟩
      · simp only [false_iff, not_and]
        intro htext hlen
        cases front with
        | nil => simp at hlen
        | cons d rest =>
          obtain ⟨rfl, -⟩ := List.cons.inj htext
          rw [utf8Len_cons] at hlen
          omega

/-- `&text[start..stop]` -/
def sliceBytes (text : List Char) (start stop : ℕ) : Option (List Char) := do
  let (front, _) ← splitAtByte text stop
  let (_, slice) ← splitAtByte front start
  return slice

theorem sliceBytes_eq_some {text slice : List Char} {start stop : ℕ} :
    sliceBytes text start stop = some slice ↔
      ∃ front back, text = front ++ slice ++ back ∧ utf8Len front = start ∧
        utf8Len (front ++ slice) = stop := by
  simp only [sliceBytes, Option.bind_eq_bind, Option.bind_eq_some_iff, Prod.exists, Option.pure_def,
    Option.some.injEq, splitAtByte_eq_some]
  constructor
  · rintro ⟨_, back, ⟨rfl, hstop⟩, front, _, ⟨rfl, hstart⟩, rfl⟩
    exact ⟨front, back, rfl, hstart, hstop⟩
  · rintro ⟨front, back, rfl, hstart, hstop⟩
    exact ⟨front ++ slice, back, ⟨rfl, hstop⟩, front, slice, ⟨rfl, hstart⟩, rfl⟩

/-- A slice is there exactly between two offsets that are allowed. -/
theorem sliceBytes_isSome {text : List Char} {start stop : ℕ} :
    (sliceBytes text start stop).isSome ↔
      start ≤ stop ∧ IsCharBoundary text start ∧ IsCharBoundary text stop := by
  rw [Option.isSome_iff_exists]
  simp only [sliceBytes_eq_some]
  constructor
  · rintro ⟨slice, front, back, rfl, rfl, rfl⟩
    refine ⟨by simp, ⟨front, slice ++ back, by simp, rfl⟩, front ++ slice, back, rfl, rfl⟩
  · rintro ⟨hle, ⟨front, back, rfl, rfl⟩, front', back', htext, rfl⟩
    -- Of two beginnings of the same text, the one with fewer bytes begins the other.
    obtain ⟨slice, rfl⟩ | ⟨slice, rfl⟩ := List.prefix_or_prefix_of_prefix
      (List.prefix_append front back) (htext ▸ List.prefix_append front' back')
    · exact ⟨slice, front, back', by rw [htext], rfl, rfl⟩
    · rw [utf8Len_append] at hle
      obtain rfl := utf8Len_eq_zero.mp (by omega : utf8Len slice = 0)
      exact ⟨[], front', back, by simp, by simp, by simp⟩

end Foundation
