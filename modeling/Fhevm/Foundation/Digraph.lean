import Mathlib

/-!
# Finite directed multigraphs: adjacency, reachability, acyclicity

A graph on the vertices `0, …, n - 1` is given by its list of arcs; parallel
arcs are kept, since degrees count them. Reachability is decided by saturating
a set of vertices along the arcs.

## Main definitions

* `Adj`, `Reaches` — the arc relation and its reflexive-transitive closure.
* `Acyclic` — no vertex reaches itself along at least one arc.
* `saturate` — the vertices reachable from a given list, computably.
-/

namespace Foundation

/-- An arc from its first to its second component. -/
abbrev Arc := ℕ × ℕ

/-- `u` has an arc to `v`. -/
def Adj (as : List Arc) (u v : ℕ) : Prop := (u, v) ∈ as

instance (as : List Arc) (u v : ℕ) : Decidable (Adj as u v) :=
  inferInstanceAs (Decidable ((u, v) ∈ as))

/-- There is a path, possibly empty, from `u` to `v`. -/
abbrev Reaches (as : List Arc) : ℕ → ℕ → Prop := Relation.ReflTransGen (Adj as)

/-- There is a nonempty path from `u` to `v`. -/
abbrev Precedes (as : List Arc) : ℕ → ℕ → Prop := Relation.TransGen (Adj as)

/-- No element is related to itself by a nonempty chain. -/
def Acyclic {α : Type*} (r : α → α → Prop) : Prop := ∀ a, ¬ Relation.TransGen r a a

/-- Number of arcs leaving `u`, parallel arcs counted. -/
def outDegree (as : List Arc) (u : ℕ) : ℕ := as.countP (fun a => a.1 = u)

/-- Number of arcs entering `v`, parallel arcs counted. -/
def inDegree (as : List Arc) (v : ℕ) : ℕ := as.countP (fun a => a.2 = v)

/-! ## Degrees -/

theorem eq_of_countP_one {α : Type*} {p : α → Bool} {l : List α} {a b : α}
    (h : l.countP p = 1) (ha : a ∈ l) (hpa : p a) (hb : b ∈ l) (hpb : p b) : a = b := by
  rw [List.countP_eq_length_filter, List.length_eq_one_iff] at h
  obtain ⟨c, hc⟩ := h
  have hac : a ∈ l.filter p := List.mem_filter.mpr ⟨ha, hpa⟩
  have hbc : b ∈ l.filter p := List.mem_filter.mpr ⟨hb, hpb⟩
  rw [hc, List.mem_singleton] at hac hbc
  rw [hac, hbc]

theorem eq_of_outDegree_one {as : List Arc} {u v w : ℕ} (h : outDegree as u = 1)
    (hv : Adj as u v) (hw : Adj as u w) : v = w :=
  congrArg Prod.snd (eq_of_countP_one h hv (by simp) hw (by simp))

theorem eq_of_inDegree_one {as : List Arc} {u v w : ℕ} (h : inDegree as w = 1)
    (hu : Adj as u w) (hv : Adj as v w) : u = v :=
  congrArg Prod.fst (eq_of_countP_one h hu (by simp) hv (by simp))

/-- Without parallel arcs, a degree is a number of neighbours. -/
theorem inDegree_eq_ncard {as : List Arc} (h : as.Nodup) (v : ℕ) :
    inDegree as v = {u | Adj as u v}.ncard := by
  have hmap : ((as.filter (fun a => a.2 = v)).map Prod.fst).Nodup := by
    refine (List.nodup_map_iff_inj_on (h.filter _)).mpr ?_
    rintro ⟨u, w⟩ hu ⟨u', w'⟩ hu' rfl
    simp only [List.mem_filter, decide_eq_true_eq] at hu hu'
    rw [hu.2, hu'.2]
  have hset : {u | Adj as u v} = ((as.filter (fun a => a.2 = v)).map Prod.fst).toFinset := by
    ext u
    simp [Adj]
  rw [hset, Set.ncard_coe_finset, List.toFinset_card_of_nodup hmap, List.length_map, inDegree,
    List.countP_eq_length_filter]

/-! ## Renaming vertices -/

section Rename

variable {as : List Arc} {f : ℕ → ℕ} {u v : ℕ}

theorem adj_map (hu : ∀ a ∈ as, f a.1 = f u → a.1 = u) (hv : ∀ a ∈ as, f a.2 = f v → a.2 = v) :
    Adj (as.map (fun a => (f a.1, f a.2))) (f u) (f v) ↔ Adj as u v := by
  simp only [Adj, List.mem_map, Prod.mk.injEq]
  constructor
  · rintro ⟨a, ha, h₁, h₂⟩
    rw [← hu a ha h₁, ← hv a ha h₂]
    exact ha
  · exact fun h => ⟨(u, v), h, rfl, rfl⟩

theorem outDegree_map (hu : ∀ a ∈ as, f a.1 = f u → a.1 = u) :
    outDegree (as.map (fun a => (f a.1, f a.2))) (f u) = outDegree as u := by
  rw [outDegree, outDegree, List.countP_map]
  refine List.countP_congr fun a ha => ?_
  simp only [Function.comp_apply, decide_eq_true_eq]
  exact ⟨hu a ha, fun h => by rw [h]⟩

theorem inDegree_map (hv : ∀ a ∈ as, f a.2 = f v → a.2 = v) :
    inDegree (as.map (fun a => (f a.1, f a.2))) (f v) = inDegree as v := by
  rw [inDegree, inDegree, List.countP_map]
  refine List.countP_congr fun a ha => ?_
  simp only [Function.comp_apply, decide_eq_true_eq]
  exact ⟨hv a ha, fun h => by rw [h]⟩

end Rename

/-! ## Acyclic relations -/

section Acyclic

variable {α β : Type*}

theorem Acyclic.irrefl {r : α → α → Prop} (h : Acyclic r) (a : α) : ¬ r a a :=
  fun haa => h a (.single haa)

/-- A relation whose arrows lie over the arrows of an acyclic one is acyclic. -/
theorem Acyclic.of_map {r : α → α → Prop} {s : β → β → Prop} (f : α → β)
    (hs : Acyclic s) (hr : ∀ a b, r a b → s (f a) (f b)) : Acyclic r :=
  fun a ha => hs (f a) (ha.lift f hr)

/-- A relation that strictly increases a rank is acyclic. -/
theorem Acyclic.of_rank {r : α → α → Prop} (rank : α → ℕ)
    (hr : ∀ a b, r a b → rank a < rank b) : Acyclic r := by
  intro a ha
  have hlt : ∀ b, Relation.TransGen r a b → rank a < rank b := by
    intro b hab
    induction hab with
    | single hab => exact hr _ _ hab
    | tail _ hbc ih => exact lt_trans ih (hr _ _ hbc)
  exact lt_irrefl _ (hlt a ha)

theorem Acyclic.mono {r s : α → α → Prop} (hs : Acyclic s)
    (hr : ∀ a b, r a b → s a b) : Acyclic r := hs.of_map id hr

end Acyclic

/-! ## Adding one arc -/

theorem adj_append_singleton {as : List Arc} {a b u v : ℕ} :
    Adj (as ++ [(a, b)]) u v ↔ Adj as u v ∨ (u = a ∧ v = b) := by
  simp [Adj]

theorem Reaches.mono {as bs : List Arc} (h : ∀ a ∈ as, a ∈ bs) {u v : ℕ}
    (huv : Reaches as u v) : Reaches bs u v := by
  induction huv with
  | refl => exact .refl
  | tail _ hbc ih => exact ih.tail (h _ hbc)

/-- A nonempty path that may use the new arc `(a, b)` either avoids it, or
reaches `a` before its first use and continues from `b` after its last. -/
theorem precedes_append_singleton {as : List Arc} {a b u v : ℕ}
    (h : Precedes (as ++ [(a, b)]) u v) :
    Precedes as u v ∨ (Reaches as u a ∧ Reaches as b v) := by
  induction h with
  | single h =>
    rcases adj_append_singleton.mp h with h | ⟨rfl, rfl⟩
    · exact .inl (.single h)
    · exact .inr ⟨.refl, .refl⟩
  | tail _ h ih =>
    rcases adj_append_singleton.mp h with h | ⟨rfl, rfl⟩
    · rcases ih with ih | ⟨hua, hbv⟩
      · exact .inl (ih.tail h)
      · exact .inr ⟨hua, hbv.tail h⟩
    · rcases ih with ih | ⟨hua, _⟩
      · exact .inr ⟨ih.to_reflTransGen, .refl⟩
      · exact .inr ⟨hua, .refl⟩

/-- An arc keeps a graph acyclic exactly when its target does not reach its source. -/
theorem acyclic_append_singleton {as : List Arc} (h : Acyclic (Adj as)) (a b : ℕ) :
    Acyclic (Adj (as ++ [(a, b)])) ↔ ¬ Reaches as b a := by
  constructor
  · intro hac hba
    have hab : Adj (as ++ [(a, b)]) a b := adj_append_singleton.mpr (.inr ⟨rfl, rfl⟩)
    exact hac a (.head' hab (hba.mono (by simp +contextual)))
  · intro hba u hu
    rcases precedes_append_singleton hu with hu | ⟨hua, hbu⟩
    · exact h u hu
    · exact hba (hbu.trans hua)

/-! ## Deciding reachability -/

/-- Arcs that leave the vertex list `S`. -/
def leaving (as : List Arc) (S : List ℕ) : List Arc :=
  as.filter (fun a => a.1 ∈ S ∧ a.2 ∉ S)

/-- Follow leaving arcs one at a time, at most `fuel` times. -/
def saturate (as : List Arc) : ℕ → List ℕ → List ℕ
  | 0, S => S
  | fuel + 1, S =>
    match leaving as S with
    | [] => S
    | a :: _ => saturate as fuel (a.2 :: S)

theorem mem_leaving {as : List Arc} {S : List ℕ} {a : Arc} :
    a ∈ leaving as S ↔ a ∈ as ∧ a.1 ∈ S ∧ a.2 ∉ S := by
  simp [leaving]

theorem subset_saturate (as : List Arc) (fuel : ℕ) (S : List ℕ) : S ⊆ saturate as fuel S := by
  induction fuel generalizing S with
  | zero => simp [saturate]
  | succ fuel ih =>
    rw [saturate]
    split
    · simp
    · exact fun x hx => ih _ (List.mem_cons_of_mem _ hx)

/-- Saturation only adds vertices reachable from the start. -/
theorem reaches_of_mem_saturate {as : List Arc} {fuel : ℕ} {S : List ℕ} {v : ℕ}
    (h : v ∈ saturate as fuel S) : ∃ u ∈ S, Reaches as u v := by
  induction fuel generalizing S with
  | zero => exact ⟨v, h, .refl⟩
  | succ fuel ih =>
    rw [saturate] at h
    split at h
    · exact ⟨v, h, .refl⟩
    · rename_i a rest heq
      obtain ⟨ha, hs, _⟩ := mem_leaving.mp (heq ▸ List.mem_cons_self : a ∈ leaving as S)
      obtain ⟨u, hu, huv⟩ := ih h
      rcases List.mem_cons.mp hu with rfl | hu
      · exact ⟨a.1, hs, .head ha huv⟩
      · exact ⟨u, hu, huv⟩

/-- Arcs whose target is still missing; each round of saturation removes one. -/
def missing (as : List Arc) (S : List ℕ) : ℕ := as.countP (fun a => a.2 ∉ S)

theorem missing_cons_lt {as : List Arc} {S : List ℕ} {a : Arc} (ha : a ∈ as) (hS : a.2 ∉ S) :
    missing as (a.2 :: S) < missing as S := by
  induction as with
  | nil => simp at ha
  | cons b as ih =>
    have hle : missing as (a.2 :: S) ≤ missing as S :=
      List.countP_mono_left (by simp +contextual)
    have hcons : ∀ T, missing (b :: as) T = missing as T + if b.2 ∉ T then 1 else 0 := by
      intro T
      simp [missing, List.countP_cons]
    rw [hcons, hcons]
    rcases List.mem_cons.mp ha with rfl | ha
    · simp [hS]
      omega
    · have hlt := ih ha
      by_cases hb : b.2 ∈ S
      · simp [hb, hlt]
      · split_ifs <;> omega

/-- With enough fuel the saturated list is closed under arcs. -/
theorem saturate_closed {as : List Arc} {fuel : ℕ} {S : List ℕ} (hf : missing as S ≤ fuel)
    {u v : ℕ} (huv : Adj as u v) (hu : u ∈ saturate as fuel S) : v ∈ saturate as fuel S := by
  induction fuel generalizing S with
  | zero =>
    have hz : missing as S = 0 := by omega
    rw [missing, List.countP_eq_zero] at hz
    simpa [saturate] using hz _ huv
  | succ fuel ih =>
    rw [saturate] at hu ⊢
    split at hu
    · rename_i heq
      by_contra hv
      have : (u, v) ∈ leaving as S := mem_leaving.mpr ⟨huv, hu, hv⟩
      simp [heq] at this
    · rename_i a rest heq
      obtain ⟨ha, _, hnot⟩ := mem_leaving.mp (heq ▸ List.mem_cons_self : a ∈ leaving as S)
      have := missing_cons_lt ha hnot
      exact ih (by omega) hu

theorem mem_saturate_iff {as : List Arc} {u v : ℕ} :
    v ∈ saturate as as.length [u] ↔ Reaches as u v := by
  constructor
  · intro h
    obtain ⟨w, hw, hwv⟩ := reaches_of_mem_saturate h
    rw [List.mem_singleton.mp hw] at hwv
    exact hwv
  · intro h
    induction h with
    | refl => exact subset_saturate _ _ _ (by simp)
    | tail _ hbc ih => exact saturate_closed List.countP_le_length hbc ih

instance (as : List Arc) (u v : ℕ) : Decidable (Reaches as u v) :=
  decidable_of_iff _ mem_saturate_iff

end Foundation
