import Fhevm.Foundation.Dag

/-!
# Topological orders

What a topological sort promises, independent of the algorithm, and one
algorithm that keeps the promise.

## Main definitions

* `IsTopological` — a list of all vertices in which every arc points forward.
* `Toposort` — a sorting function together with its documented behaviour.
* `Toposort.kahn` — repeatedly emit the first vertex without a pending predecessor.
-/

namespace Foundation

/-- `ts` lists the vertices `0, …, n - 1` once each, and every arc points forward. -/
structure IsTopological (n : ℕ) (as : List Arc) (ts : List ℕ) : Prop where
  perm : ts.Perm (List.range n)
  ordered : ts.Pairwise (fun u v => ¬ Adj as v u)
  irrefl : ∀ u, ¬ Adj as u u

namespace IsTopological

variable {n : ℕ} {as : List Arc} {ts : List ℕ}

theorem nodup (h : IsTopological n as ts) : ts.Nodup :=
  h.perm.nodup_iff.mpr List.nodup_range

theorem mem_iff (h : IsTopological n as ts) {v : ℕ} : v ∈ ts ↔ v < n := by
  rw [h.perm.mem_iff, List.mem_range]

/-- In a split of the order at `v`, every predecessor of `v` lies before the split. -/
theorem mem_prefix (h : IsTopological n as ts) {l₁ l₂ : List ℕ} {u v : ℕ}
    (hsplit : ts = l₁ ++ v :: l₂) (huv : Adj as u v) (hu : u < n) : u ∈ l₁ := by
  have hmem : u ∈ l₁ ++ v :: l₂ := hsplit ▸ h.mem_iff.mpr hu
  have hord := h.ordered
  rw [hsplit, List.pairwise_append, List.pairwise_cons] at hord
  rcases List.mem_append.mp hmem with hu | hu
  · exact hu
  · rcases List.mem_cons.mp hu with rfl | hu
    · exact absurd huv (h.irrefl _)
    · exact absurd huv (hord.2.1.1 u hu)

/-- Positions in a topological order increase along arcs. -/
theorem idxOf_lt (h : IsTopological n as ts) {u v : ℕ} (huv : Adj as u v)
    (hu : u < n) (hv : v < n) : ts.idxOf u < ts.idxOf v := by
  obtain ⟨l₁, l₂, hsplit⟩ := List.append_of_mem (h.mem_iff.mpr hv)
  have hnd := h.nodup
  rw [hsplit, List.nodup_append] at hnd
  have hvl : v ∉ l₁ := fun hv' => hnd.2.2 v hv' v List.mem_cons_self rfl
  have hul : u ∈ l₁ := h.mem_prefix hsplit huv hu
  rw [hsplit, List.idxOf_append_of_mem hul, List.idxOf_append_of_notMem hvl]
  have := List.idxOf_lt_length_of_mem hul
  omega

end IsTopological

/-- A topological sort: it returns a topological order of every acyclic graph,
and nothing but topological orders. -/
structure Toposort where
  sort : ℕ → List Arc → Option (List ℕ)
  sound : ∀ n as ts, (∀ a ∈ as, a.1 < n ∧ a.2 < n) → sort n as = some ts → IsTopological n as ts
  complete : ∀ n as, (∀ a ∈ as, a.1 < n ∧ a.2 < n) → Acyclic (Adj as) → (sort n as).isSome

/-! ## A sorting algorithm -/

/-- The first vertex of `rest` without a predecessor in `rest`. -/
def nextReady (as : List Arc) (rest : List ℕ) : Option ℕ :=
  rest.find? (fun v => rest.all (fun u => ¬ Adj as u v))

/-- Emit ready vertices until none is left; `none` when the rest is stuck. -/
def kahn (as : List Arc) : ℕ → List ℕ → Option (List ℕ)
  | 0, rest => if rest = [] then some [] else none
  | fuel + 1, rest =>
    if rest = [] then some []
    else (nextReady as rest).bind (fun v => (kahn as fuel (rest.erase v)).map (v :: ·))

theorem nextReady_eq_some {as : List Arc} {rest : List ℕ} {v : ℕ}
    (h : nextReady as rest = some v) : v ∈ rest ∧ ∀ u ∈ rest, ¬ Adj as u v := by
  have := List.find?_some h
  exact ⟨List.mem_of_find?_eq_some h, by simpa using this⟩

/-- A nonempty list has a minimal element in every acyclic relation. -/
theorem Acyclic.exists_minimal {α : Type*} {r : α → α → Prop} (h : Acyclic r) {l : List α}
    (hne : l ≠ []) : ∃ v ∈ l, ∀ u ∈ l, ¬ r u v := by
  let s : {x // x ∈ l} → {x // x ∈ l} → Prop := fun a b => Relation.TransGen r a.1 b.1
  have : IsTrans _ s := ⟨fun _ _ _ hab hbc => hab.trans hbc⟩
  have : Std.Irrefl s := ⟨fun a ha => h a.1 ha⟩
  have : Finite {x // x ∈ l} := (List.finite_toSet l).to_subtype
  have hwf : WellFounded s := Finite.wellFounded_of_trans_of_irrefl s
  obtain ⟨x, hx⟩ := List.exists_mem_of_ne_nil l hne
  obtain ⟨m, -, hm⟩ := hwf.has_min Set.univ ⟨⟨x, hx⟩, trivial⟩
  exact ⟨m.1, m.2, fun u hu hum => hm ⟨u, hu⟩ trivial (.single hum)⟩

theorem Acyclic.nextReady_isSome {as : List Arc} (h : Acyclic (Adj as)) {rest : List ℕ}
    (hne : rest ≠ []) : (nextReady as rest).isSome := by
  obtain ⟨v, hv, hsrc⟩ := h.exists_minimal hne
  rw [nextReady, List.find?_isSome]
  exact ⟨v, hv, by simpa using hsrc⟩

theorem kahn_isSome {as : List Arc} (h : Acyclic (Adj as)) (fuel : ℕ) (rest : List ℕ)
    (hlen : rest.length ≤ fuel) : (kahn as fuel rest).isSome := by
  induction fuel generalizing rest with
  | zero =>
    have : rest = [] := List.eq_nil_of_length_eq_zero (by omega)
    simp [kahn, this]
  | succ fuel ih =>
    rw [kahn]
    split
    · rfl
    · rename_i hne
      obtain ⟨v, hv⟩ := Option.isSome_iff_exists.mp (h.nextReady_isSome hne)
      have hmem := (nextReady_eq_some hv).1
      have hpos := List.length_pos_of_mem hmem
      have := ih (rest.erase v) (by rw [List.length_erase_of_mem hmem]; omega)
      simpa [hv] using this

theorem kahn_sound {as : List Arc} (fuel : ℕ) (rest ts : List ℕ) (hnd : rest.Nodup)
    (h : kahn as fuel rest = some ts) :
    ts.Perm rest ∧ ts.Pairwise (fun u v => ¬ Adj as v u) ∧ ∀ u ∈ rest, ¬ Adj as u u := by
  induction fuel generalizing rest ts with
  | zero =>
    rw [kahn] at h
    split at h
    · rename_i hr
      cases h
      simp [hr]
    · simp at h
  | succ fuel ih =>
    rw [kahn] at h
    split at h
    · rename_i hr
      cases h
      simp [hr]
    · obtain ⟨v, hv, h⟩ := Option.bind_eq_some_iff.mp h
      obtain ⟨ts', hts', rfl⟩ := Option.map_eq_some_iff.mp h
      obtain ⟨hmem, hsrc⟩ := nextReady_eq_some hv
      obtain ⟨hperm, hord, hirr⟩ := ih _ _ (hnd.erase v) hts'
      refine ⟨(hperm.cons v).trans (List.perm_cons_erase hmem).symm, ?_, ?_⟩
      · refine List.pairwise_cons.mpr ⟨fun u hu => ?_, hord⟩
        exact hsrc u (List.mem_of_mem_erase (hperm.mem_iff.mp hu))
      · intro u hu
        by_cases huv : u = v
        · exact huv ▸ hsrc v hmem
        · exact hirr u ((List.mem_erase_of_ne huv).mpr hu)

/-- Kahn's algorithm as a topological sort. -/
def Toposort.kahn : Toposort where
  sort n as := Foundation.kahn as n (List.range n)
  sound n as ts hb h := by
    obtain ⟨hperm, hord, hirr⟩ := kahn_sound n _ ts List.nodup_range h
    refine ⟨hperm, hord, fun u hu => ?_⟩
    exact hirr u (List.mem_range.mpr (hb _ hu).1) hu
  complete n as _ hac := kahn_isSome hac n _ (by simp)

/-- A finite acyclic graph has a rank that increases along arcs. -/
theorem Acyclic.exists_rank {n : ℕ} {as : List Arc} (hb : ∀ a ∈ as, a.1 < n ∧ a.2 < n)
    (h : Acyclic (Adj as)) : ∃ rank : ℕ → ℕ, ∀ u v, Adj as u v → rank u < rank v := by
  obtain ⟨ts, hts⟩ := Option.isSome_iff_exists.mp (Toposort.kahn.complete n as hb h)
  have htop := Toposort.kahn.sound n as ts hb hts
  exact ⟨ts.idxOf, fun u v huv => htop.idxOf_lt huv (hb _ huv).1 (hb _ huv).2⟩

/-- A finite acyclic graph has a height, at most its number of vertices, that
decreases along arcs. -/
theorem Acyclic.exists_height {n : ℕ} {as : List Arc} (hb : ∀ a ∈ as, a.1 < n ∧ a.2 < n)
    (h : Acyclic (Adj as)) :
    ∃ height : ℕ → ℕ, (∀ u, height u ≤ n) ∧ ∀ u v, Adj as u v → height v < height u := by
  obtain ⟨ts, hts⟩ := Option.isSome_iff_exists.mp (Toposort.kahn.complete n as hb h)
  have htop := Toposort.kahn.sound n as ts hb hts
  refine ⟨fun u => n - ts.idxOf u, fun u => Nat.sub_le _ _, fun u v huv => ?_⟩
  obtain ⟨hu, hv⟩ := hb _ huv
  have hlt := htop.idxOf_lt huv hu hv
  have hlen : ts.length = n := by simpa using htop.perm.length_eq
  have := List.idxOf_lt_length_of_mem (htop.mem_iff.mpr hv)
  simp only at *
  omega

/-- The arc relation of a finite acyclic graph is well-founded. -/
theorem Acyclic.wellFounded {n : ℕ} {as : List Arc} (hb : ∀ a ∈ as, a.1 < n ∧ a.2 < n)
    (h : Acyclic (Adj as)) : WellFounded (Adj as) := by
  obtain ⟨rank, hrank⟩ := h.exists_rank hb
  exact Subrelation.wf (fun {u v} huv => hrank u v huv) (InvImage.wf rank Nat.lt_wfRel.wf)

namespace Dag

variable {N E : Type*}

theorem arcs_bounded (g : Dag N E) : ∀ a ∈ g.arcs, a.1 < g.nodeCount ∧ a.2 < g.nodeCount :=
  fun _ ha => adj_lt ha

/-- Sort a graph that is acyclic by construction. -/
def toposort (T : Toposort) (g : Dag N E) : Option (List ℕ) := T.sort g.nodeCount g.arcs

theorem toposort_isSome (T : Toposort) (g : Dag N E) : (g.toposort T).isSome :=
  T.complete _ _ g.arcs_bounded g.acyclic

theorem toposort_sound {T : Toposort} {g : Dag N E} {ts : List ℕ} (h : g.toposort T = some ts) :
    IsTopological g.nodeCount g.arcs ts :=
  T.sound _ _ _ g.arcs_bounded h

theorem wellFounded (g : Dag N E) : WellFounded (Adj g.arcs) := g.acyclic.wellFounded g.arcs_bounded

end Dag

end Foundation
