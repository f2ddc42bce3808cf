import Fhevm.Foundation.Contract

/-!
# Votes in the runs of a contract

Some calls of a contract cast a vote. The votes of a run are those of its committed
calls, and what the contract records of them can be read off the run.

## Main definitions

* `Contract.Commits` — the call commits.
* `Contract.votes` — the votes of a run, oldest first.
* `Contract.record_eq` — a record of the votes is read off the run.
* `Contract.votes_nodup` — nobody votes twice where a vote marks its voter.
* `Contract.holds_iff` — what certain calls bring about holds if one of them was made.
* `Contract.once` — what a call can only do once is done by one call.
* `Contract.issued_iff` — numbered requests stay in their table.
-/

namespace Foundation.Contract

variable {σ ι ε ω ν α β τ : Type*} {C : Contract ι σ ε ω} {s₀ : σ}

/-! ## Committed calls -/

def Commits (C : Contract ι σ ε ω) (i : ι) (s : σ) : Prop := ∃ r, C.call i s = .ok r

instance (i : ι) (s : σ) : Decidable (C.Commits i s) :=
  match h : C.call i s with
  | .ok r => isTrue ⟨r, h⟩
  | .error e => isFalse fun ⟨r, hr⟩ => by simp [h] at hr

theorem Commits.call_eq {i : ι} {s : σ} (h : C.Commits i s) :
    ∃ o, C.call i s = .ok (o, C.step i s) := by
  obtain ⟨⟨o, s'⟩, h⟩ := h
  exact ⟨o, by rw [step_of_ok h]; exact h⟩

theorem commits_of_ok {i : ι} {s : σ} {r : ω × σ} (h : C.call i s = .ok r) : C.Commits i s := ⟨r, h⟩

theorem step_of_not_commits {i : ι} {s : σ} (h : ¬ C.Commits i s) : C.step i s = s := by
  obtain ⟨e, -, hs⟩ | ⟨o, ho⟩ := step_cases i s (C := C)
  · exact hs
  · exact absurd ⟨_, ho⟩ h

/-! ## Votes -/

/-- The votes of a run, where `cast` is the vote a call casts if it commits. -/
def votes (C : Contract ι σ ε ω) (s₀ : σ) (cast : ι → σ → Option ν) : List ι → List ν
  | [] => []
  | i :: past =>
    if C.Commits i (C.exec s₀ past) then
      votes C s₀ cast past ++ (cast i (C.exec s₀ past)).toList
    else votes C s₀ cast past

variable {cast : ι → σ → Option ν}

@[simp] theorem votes_nil : C.votes s₀ cast [] = [] := rfl

theorem votes_cons_of_commits {i : ι} {past : List ι} (h : C.Commits i (C.exec s₀ past)) :
    C.votes s₀ cast (i :: past) =
      C.votes s₀ cast past ++ (cast i (C.exec s₀ past)).toList := by
  rw [votes, if_pos h]

theorem votes_cons_of_not_commits {i : ι} {past : List ι} (h : ¬ C.Commits i (C.exec s₀ past)) :
    C.votes s₀ cast (i :: past) = C.votes s₀ cast past := by
  rw [votes, if_neg h]

/-- Every vote was cast by a committed call of the run. -/
theorem mem_votes {calls : List ι} {v : ν} :
    v ∈ C.votes s₀ cast calls ↔ ∃ i past, Ran calls i past ∧ C.Commits i (C.exec s₀ past) ∧
      cast i (C.exec s₀ past) = some v := by
  induction calls with
  | nil => simp
  | cons i past ih =>
    have hhead : (∃ j before, Ran (i :: past) j before ∧ C.Commits j (C.exec s₀ before) ∧
        cast j (C.exec s₀ before) = some v) ↔
          (C.Commits i (C.exec s₀ past) ∧ cast i (C.exec s₀ past) = some v) ∨
            v ∈ C.votes s₀ cast past := by
      rw [ih]
      constructor
      · rintro ⟨j, before, hran, h⟩
        rcases ran_cons.mp hran with ⟨rfl, rfl⟩ | hran
        · exact .inl h
        · exact .inr ⟨j, before, hran, h⟩
      · rintro (h | ⟨j, before, hran, h⟩)
        · exact ⟨i, past, Ran.head _ _, h⟩
        · exact ⟨j, before, hran.tail, h⟩
    rw [hhead]
    by_cases hc : C.Commits i (C.exec s₀ past)
    · rw [votes_cons_of_commits hc]
      simp [hc, or_comm]
    · rw [votes_cons_of_not_commits hc]
      simp [hc]

theorem votes_subset {past calls : List ι} (h : past <:+ calls) :
    C.votes s₀ cast past ⊆ C.votes s₀ cast calls := by
  intro v hv
  obtain ⟨i, before, hran, hcast⟩ := mem_votes.mp hv
  exact mem_votes.mpr ⟨i, before, hran.of_suffix h, hcast⟩

/-- A record to which the votes about something are appended lists these votes. -/
theorem record_eq {record : σ → List τ} {about : ν → Prop} [DecidablePred about] {tag : ν → τ}
    (init : record s₀ = [])
    (append : ∀ i s, C.Commits i s →
      record (C.step i s) = record s ++ ((cast i s).toList.filter about).map tag)
    (calls : List ι) :
    record (C.exec s₀ calls) = ((C.votes s₀ cast calls).filter about).map tag := by
  induction calls with
  | nil => exact init
  | cons i past ih =>
    by_cases hc : C.Commits i (C.exec s₀ past)
    · rw [exec_cons, append i _ hc, votes_cons_of_commits hc, List.filter_append,
        List.map_append, ih]
    · rw [exec_cons, step_of_not_commits hc, votes_cons_of_not_commits hc, ih]

/-- If a vote needs its voter unmarked and marks it, and marks stay, nobody votes twice. -/
theorem votes_nodup {voter : ν → β} {marked : σ → β → Prop}
    (fresh : ∀ i s v, C.Commits i s → cast i s = some v →
      ¬ marked s (voter v) ∧ marked (C.step i s) (voter v))
    (keep : ∀ i s b, C.Commits i s → marked s b → marked (C.step i s) b) (calls : List ι) :
    ((C.votes s₀ cast calls).map voter).Nodup := by
  suffices h : ((C.votes s₀ cast calls).map voter).Nodup ∧
      ∀ v ∈ C.votes s₀ cast calls, marked (C.exec s₀ calls) (voter v) from h.1
  induction calls with
  | nil => simp
  | cons i past ih =>
    obtain ⟨hnd, hmarked⟩ := ih
    by_cases hc : C.Commits i (C.exec s₀ past)
    · rw [votes_cons_of_commits hc, exec_cons]
      cases hv : cast i (C.exec s₀ past) with
      | none =>
        simp only [Option.toList_none, List.append_nil]
        exact ⟨hnd, fun v hv => keep i _ _ hc (hmarked v hv)⟩
      | some v =>
        obtain ⟨hfresh, hnow⟩ := fresh i _ v hc hv
        simp only [Option.toList_some, List.map_append, List.map_cons, List.map_nil]
        refine ⟨?_, ?_⟩
        · rw [List.nodup_append]
          refine ⟨hnd, List.nodup_singleton _, ?_⟩
          intro a ha b hb hab
          obtain ⟨w, hw, rfl⟩ := List.mem_map.mp ha
          rw [List.mem_singleton.mp hb] at hab
          exact hfresh (hab ▸ hmarked w hw)
        · intro w hw
          rcases List.mem_append.mp hw with hw | hw
          · exact keep i _ _ hc (hmarked w hw)
          · rwa [List.mem_singleton.mp hw]
    · rw [votes_cons_of_not_commits hc, exec_cons, step_of_not_commits hc]
      exact ⟨hnd, hmarked⟩

/-- Those who vote once for each topic are distinct among the voters on one topic. -/
theorem nodup_of_topic [DecidableEq β] {topic : ν → β} {voter : ν → τ} {vs : List ν}
    (h : (vs.map fun v => (topic v, voter v)).Nodup) (b : β) :
    ((vs.filter fun v => topic v = b).map voter).Nodup := by
  have hnd : ((vs.filter fun v => topic v = b).map fun v => (topic v, voter v)).Nodup :=
    h.sublist (List.filter_sublist.map _)
  have hpair : (vs.filter fun v => topic v = b).map (fun v => (topic v, voter v)) =
      ((vs.filter fun v => topic v = b).map voter).map (Prod.mk b) := by
    rw [List.map_map]
    refine List.map_congr_left fun v hv => ?_
    have htopic : topic v = b := by simpa using (List.mem_filter.mp hv).2
    simp [htopic]
  rw [hpair] at hnd
  exact List.Nodup.of_map _ hnd

/-! ## What happens once -/

/-- What commits keep holds at every later time of a run. -/
theorem holds_later {P : σ → Prop} (keep : ∀ i s, C.Commits i s → P s → P (C.step i s))
    {past calls : List ι} (h : past <:+ calls) (hP : P (C.exec s₀ past)) :
    P (C.exec s₀ calls) :=
  exec_rel (r := fun s s' => P s → P s') (fun _ => id) (fun _ _ _ h h' => h' ∘ h)
    (fun i s _ _ ho hs => step_of_ok ho ▸ keep i s ⟨_, ho⟩ hs) h hP

/-- What only certain commits bring about holds after a run exactly if one of them was made. -/
theorem holds_iff {P : σ → Prop} {does : ι → σ → Prop} (init : ¬ P s₀)
    (set : ∀ i s, C.Commits i s → (P (C.step i s) ↔ P s ∨ does i s)) (calls : List ι) :
    P (C.exec s₀ calls) ↔
      ∃ i past, Ran calls i past ∧ C.Commits i (C.exec s₀ past) ∧ does i (C.exec s₀ past) := by
  induction calls with
  | nil => simp [init]
  | cons i past ih =>
    have hrun : (∃ j before, Ran (i :: past) j before ∧ C.Commits j (C.exec s₀ before) ∧
        does j (C.exec s₀ before)) ↔
          P (C.exec s₀ past) ∨ (C.Commits i (C.exec s₀ past) ∧ does i (C.exec s₀ past)) := by
      rw [ih]
      constructor
      · rintro ⟨j, before, hran, h⟩
        rcases ran_cons.mp hran with ⟨rfl, rfl⟩ | hran
        · exact .inr h
        · exact .inl ⟨j, before, hran, h⟩
      · rintro (⟨j, before, hran, h⟩ | h)
        · exact ⟨j, before, hran.tail, h⟩
        · exact ⟨i, past, Ran.head _ _, h⟩
    rw [hrun, exec_cons]
    by_cases hc : C.Commits i (C.exec s₀ past)
    · rw [set i _ hc]
      simp [hc]
    · rw [step_of_not_commits hc]
      simp [hc]

/-- If a call that does it needs that it was not done, and afterwards it is done for good,
then at most one call of a run does it. -/
theorem once {P : σ → Prop} {does : ι → σ → Prop}
    (keep : ∀ i s, C.Commits i s → P s → P (C.step i s))
    (fresh : ∀ i s, does i s → ¬ P s ∧ P (C.step i s)) {calls : List ι} {i i' : ι}
    {past past' : List ι} (hran : Ran calls i past) (hran' : Ran calls i' past')
    (h : does i (C.exec s₀ past)) (h' : does i' (C.exec s₀ past')) : i = i' ∧ past = past' := by
  -- of two different calls one is made when the other has been
  have hlater : ∀ {j j' : ι} {before before' : List ι}, (j :: before) <:+ (j' :: before') →
      does j (C.exec s₀ before) → does j' (C.exec s₀ before') → j = j' ∧ before = before' := by
    intro j j' before before' hsuffix hj hj'
    rcases List.suffix_cons_iff.mp hsuffix with heq | hsuffix
    · simpa using heq
    · have hdone : P (C.exec s₀ (j :: before)) := (fresh j _ hj).2
      exact absurd (holds_later keep hsuffix hdone) (fresh j' _ hj').1
  rcases List.suffix_or_suffix_of_suffix hran hran' with hsuffix | hsuffix
  · exact hlater hsuffix h h'
  · obtain ⟨hi, hpast⟩ := hlater hsuffix h' h
    exact ⟨hi.symm, hpast.symm⟩

/-! ## Numbered requests -/

/-- The call is a request with the content `a`, and gets the number `n`. -/
def Issued (C : Contract ι σ ε ω) (s₀ : σ) (counter : σ → ℕ) (issue : ι → σ → Option α)
    (calls : List ι) (n : ℕ) (a : α) : Prop :=
  ∃ i past, Ran calls i past ∧ C.Commits i (C.exec s₀ past) ∧
    issue i (C.exec s₀ past) = some a ∧ n = counter (C.exec s₀ past) + 1

/-- Requests are numbered by a counter that starts at `base`, and are kept in a table. The
entry of a number that has been given out is the content of the request that got it. -/
theorem issued_iff {counter : σ → ℕ} {table : σ → ℕ → α} {issue : ι → σ → Option α} {base : ℕ}
    (init : counter s₀ = base)
    (issued : ∀ i s a, C.Commits i s → issue i s = some a →
      counter (C.step i s) = counter s + 1 ∧
        table (C.step i s) = Function.update (table s) (counter s + 1) a)
    (other : ∀ i s, C.Commits i s → issue i s = none →
      counter (C.step i s) = counter s ∧ table (C.step i s) = table s)
    (calls : List ι) (n : ℕ) (a : α) :
    C.Issued s₀ counter issue calls n a ↔
      base < n ∧ n ≤ counter (C.exec s₀ calls) ∧ table (C.exec s₀ calls) n = a := by
  induction calls with
  | nil =>
    simp only [Issued, not_ran_nil, false_and, exists_false, exec_nil, init, false_iff]
    omega
  | cons i past ih =>
    have hhead : C.Issued s₀ counter issue (i :: past) n a ↔
        C.Issued s₀ counter issue past n a ∨ (C.Commits i (C.exec s₀ past) ∧
          issue i (C.exec s₀ past) = some a ∧ n = counter (C.exec s₀ past) + 1) := by
      constructor
      · rintro ⟨j, before, hran, h⟩
        rcases ran_cons.mp hran with ⟨rfl, rfl⟩ | hran
        · exact .inr h
        · exact .inl ⟨j, before, hran, h⟩
      · rintro (⟨j, before, hran, h⟩ | h)
        · exact ⟨j, before, hran.tail, h⟩
        · exact ⟨i, past, Ran.head _ _, h⟩
    have hbase : base ≤ counter (C.exec s₀ past) := by
      apply exec_induction (P := fun _ s => base ≤ counter s)
      · exact init.ge
      · intro j before o s' hb hj
        have hc := commits_of_ok hj
        have hs : C.step j (C.exec s₀ before) = s' := step_of_ok hj
        cases hi : issue j (C.exec s₀ before) with
        | none => exact hs ▸ ((other j _ hc hi).1 ▸ hb)
        | some b => exact hs ▸ ((issued j _ b hc hi).1 ▸ Nat.le_succ_of_le hb)
      · exact fun _ _ _ hb _ => hb
    rw [hhead, ih, exec_cons]
    by_cases hc : C.Commits i (C.exec s₀ past)
    · cases hi : issue i (C.exec s₀ past) with
      | none =>
        obtain ⟨hcounter, htable⟩ := other i _ hc hi
        rw [hcounter, htable]
        simp
      | some b =>
        obtain ⟨hcounter, htable⟩ := issued i _ b hc hi
        rw [hcounter, htable, Function.update_apply]
        by_cases hn : n = counter (C.exec s₀ past) + 1
        · subst hn
          simp only [hc, Option.some.injEq, true_and, and_true, if_true]
          constructor
          · rintro (⟨-, h, -⟩ | rfl)
            · omega
            · exact ⟨by omega, le_rfl, rfl⟩
          · exact fun h => .inr h.2.2
        · simp only [hn, if_false, and_false, or_false]
          constructor
          · exact fun h => ⟨h.1, by omega, h.2.2⟩
          · exact fun h => ⟨h.1, by omega, h.2.2⟩
    · rw [step_of_not_commits hc]
      simp [hc]

end Foundation.Contract
