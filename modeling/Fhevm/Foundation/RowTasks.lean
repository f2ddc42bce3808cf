import Fhevm.Foundation.Table
import Fhevm.Foundation.TaskSet

/-!
# Rows that are dealt with in tasks

A call picks rows of a table. Of each row it makes a task, which sends something and keeps the books
of the row by a statement when it knows how that has ended; or it removes the row, skips it, or
returns early. Statements select rows by their keys, and may select the rows of others.

## Main definitions

* `Statement` — a change or the removal of the rows that are selected.
* `RowOperation` — how rows are picked and prepared, and the statements for them.
* `RowOperation.OwnEffects` — all is sent, and every row is as its own end has left it.

## Main results

* `RowOperation.ownEffects_of_isolated`, `RowOperation.isolated_of_ownEffects` — when that holds at
  the end of every run.
-/

namespace Foundation

variable {α κ ρ ω : Type} {key : α → κ}

/-! ## Statements -/

/-- A statement on the rows that a condition on their keys selects. -/
inductive Statement (key : α → κ)
  | update (f : α → α) (hf : ∀ a, key (f a) = key a)
  | delete

namespace Statement

def run (statement : Statement key) (selects : κ → Bool) (t : Table key) : Table key :=
  match statement with
  | .update f hf => t.update (fun a => selects (key a)) f hf
  | .delete => t.delete fun a => selects (key a)

/-- What it makes of a row that it selects. -/
def own : Statement key → Option α → Option α
  | .update f _ => Option.map f
  | .delete => fun _ => none

@[simp] theorem own_none (statement : Statement key) : statement.own none = none := by
  cases statement <;> rfl

theorem get?_run [DecidableEq κ] (statement : Statement key) (selects : κ → Bool) (t : Table key)
    (k : κ) :
    (statement.run selects t).get? k =
      if selects k then statement.own (t.get? k) else t.get? k := by
  cases statement with
  | update f hf => exact t.get?_update_key selects f hf k
  | delete => exact t.get?_delete_key selects k

end Statement

/-! ## Operations -/

/-- The effects of some items are all the same one, which there is no second time unless it is then
without an effect. -/
theorem foldr_own {τ : Type} {l : List ℕ} {own : ℕ → τ → τ} {g : τ → τ} {j : ℕ} (hnodup : l.Nodup)
    (hj : j ∈ l) (hown : ∀ i ∈ l, own i = g)
    (htwice : ∀ i ∈ l, i ≠ j → ∀ x, g (g x) = g x) (x : τ) : l.foldr own x = g x := by
  have hg : ∀ l' : List ℕ, (∀ i ∈ l', own i = g) → l' ≠ [] → (∀ x, g (g x) = g x) →
      l'.foldr own x = g x := by
    intro l' hown hne hidem
    induction l' with
    | nil => exact absurd rfl hne
    | cons i l' ih =>
      rw [List.foldr_cons, hown i (by simp)]
      cases l' with
      | nil => rfl
      | cons i' l' => rw [ih (fun i hi => hown i (by simp [hi])) (by simp), hidem]
  by_cases hidem : ∀ x, g (g x) = g x
  · exact hg l hown (List.ne_nil_of_mem hj) hidem
  · have hall : ∀ i ∈ l, i = j := fun i hi => by_contra fun hne => hidem (htwice i hi hne)
    obtain rfl : l = [j] := by
      refine List.perm_singleton.mp
        ((List.perm_ext_iff_of_nodup hnodup (List.nodup_singleton j)).mpr fun i => ?_)
      rw [List.mem_singleton]
      exact ⟨hall i, fun heq => heq ▸ hj⟩
    simp [hown j]

/-- What is prepared for a row. -/
inductive Preparation (ρ : Type)
  | request (r : ρ)
  | skip
  | remove
  /-- The call returns early. -/
  | abort
deriving DecidableEq, Repr

namespace Preparation

def IsRequest : Preparation ρ → Prop
  | .request _ => True
  | _ => False

def prepared : Preparation ρ → Prepared
  | .request _ => .task
  | .skip => .skip
  | .remove => .now
  | .abort => .abort

theorem prepared_eq_task {p : Preparation ρ} : p.prepared = .task ↔ p.IsRequest := by
  cases p <;> simp [prepared, IsRequest]

theorem prepared_eq_now {p : Preparation ρ} : p.prepared = .now ↔ p = .remove := by
  cases p <;> simp [prepared]

end Preparation

/-- An operation on rows: `ρ` is what is sent for them, and `ω` how that ends. -/
structure RowOperation (α κ ρ ω : Type) where
  key : α → κ
  pending : α → Bool
  batchLimit : ℕ
  prepare : α → Preparation ρ
  /-- Which keys the statements for the row with a key select. -/
  selects : κ → κ → Bool
  statement : ω → Statement key
  /-- Whether the task returns without an error. -/
  ok : ω → Bool

namespace RowOperation

variable (O : RowOperation α κ ρ ω)

/-- The statement for a row whose transaction has come to an end. -/
def rowStatement (row : α) (e : ω) : Option (Statement O.key) :=
  match O.prepare row with
  | .request _ => some (O.statement e)
  | .remove => some .delete
  | .skip | .abort => none

/-- What the row's own end makes of it. -/
def ownEffect (row : α) (e : ω) : Option α :=
  match O.rowStatement row e with
  | some statement => statement.own (some row)
  | none => some row

def runStatement (row : α) (e : ω) (t : Table O.key) : Table O.key :=
  match O.rowStatement row e with
  | some statement => statement.run (O.selects (O.key row)) t
  | none => t

/-- The batch of some rows, with how the transaction of each ends. -/
def batch (rows : List α) (ends : ℕ → ω) : Batch (Table O.key) where
  prepared := rows.map fun row => (O.prepare row).prepared
  effect i t := (rows[i]?).elim t fun row => O.runStatement row (ends i) t
  ok i := O.ok (ends i)

/-- The rows of a batch, as a query has returned them. -/
structure Picked [DecidableEq κ] (t : Table O.key) (rows : List α) : Prop where
  nodup : (rows.map O.key).Nodup
  get? : ∀ row ∈ rows, t.get? (O.key row) = some row
  pending : ∀ row ∈ rows, O.pending row
  length_le : rows.length ≤ O.batchLimit

/-- Whenever the call has returned, all is sent and every row is as its own end has left it. -/
def OwnEffects [DecidableEq κ] (t : Table O.key) (rows : List α) (ends : ℕ → ω) : Prop :=
  ∀ past s, (O.batch rows ends).Runs t past s → s.returned.isSome →
    ∀ i row, rows[i]? = some row →
      ((O.prepare row).IsRequest → (s.stage i).IsSent) ∧
        s.shared.get? (O.key row) = O.ownEffect row (ends i)

/-- No statement for a row changes another, unless it is the statement for the other too. -/
def Unshared (rows : List α) (ends : ℕ → ω) : Prop :=
  ∀ i j rowi rowj, i ≠ j → rows[i]? = some rowi → rows[j]? = some rowj →
    O.selects (O.key rowi) (O.key rowj) →
      O.rowStatement rowi (ends i) = none ∨
        O.rowStatement rowi (ends i) = O.rowStatement rowj (ends j)

/-! ## What a run leaves of a row -/

/-- Whether the statement for the row `i` selects the row `j`. -/
def touches (rows : List α) (i j : ℕ) : Bool :=
  (rows[i]?).any fun rowi => (rows[j]?).any fun rowj => O.selects (O.key rowi) (O.key rowj)

/-- What the statement for the row `i` makes of a row that it selects. -/
def ownAt (rows : List α) (ends : ℕ → ω) (i : ℕ) (x : Option α) : Option α :=
  match (rows[i]?).bind fun row => O.rowStatement row (ends i) with
  | some statement => statement.own x
  | none => x

section

variable {O} {rows : List α} {ends : ℕ → ω}

theorem prepared_eq {i : ℕ} {row : α} (h : rows[i]? = some row) :
    (O.batch rows ends).prepared[i]? = some (O.prepare row).prepared := by
  simp [batch, h]

theorem exists_row {i : ℕ} {item : Prepared} (h : (O.batch rows ends).prepared[i]? = some item) :
    ∃ row, rows[i]? = some row ∧ (O.prepare row).prepared = item := by
  simpa [batch, Option.map_eq_some_iff] using h

theorem rowStatement_of_isRequest {row : α} (h : (O.prepare row).IsRequest) (e : ω) :
    O.rowStatement row e = some (O.statement e) := by
  unfold rowStatement
  cases hprep : O.prepare row with
  | request r => rfl
  | skip => simp [hprep, Preparation.IsRequest] at h
  | remove => simp [hprep, Preparation.IsRequest] at h
  | abort => simp [hprep, Preparation.IsRequest] at h

theorem rowStatement_eq_none {row : α} (h : ¬ (O.prepare row).IsRequest)
    (hremove : O.prepare row ≠ .remove) (e : ω) : O.rowStatement row e = none := by
  unfold rowStatement
  cases hprep : O.prepare row with
  | request r => simp [hprep, Preparation.IsRequest] at h
  | skip => rfl
  | remove => exact absurd hprep hremove
  | abort => rfl

/-- Nothing is lost where nothing fails. -/
theorem isolated_of_ok (hprepare : ∀ row ∈ rows, (O.prepare row).prepared ≠ .abort)
    (hok : ∀ i, O.ok (ends i) = true) : (O.batch rows ends).Isolated := by
  rintro i j - (habort | ⟨-, hfail⟩)
  · obtain ⟨row, hrow, hprep⟩ := exists_row habort
    exact absurd hprep (hprepare row (List.mem_of_getElem? hrow))
  · exact absurd (hok i) (by simpa [batch] using hfail)

theorem acts_of_rowStatement {i : ℕ} {row : α} (h : rows[i]? = some row)
    (hstatement : O.rowStatement row (ends i) ≠ none) : (O.batch rows ends).Acts i := by
  rw [Batch.Acts, prepared_eq h]
  unfold rowStatement at hstatement
  cases hprep : O.prepare row <;> simp [hprep, Preparation.prepared] at hstatement ⊢

theorem rowStatement_of_acts {i : ℕ} {row : α} (h : rows[i]? = some row)
    (hacts : (O.batch rows ends).Acts i) : O.rowStatement row (ends i) ≠ none := by
  rw [Batch.Acts, prepared_eq h] at hacts
  unfold rowStatement
  cases hprep : O.prepare row <;> simp [hprep, Preparation.prepared] at hacts ⊢

theorem ownAt_eq {i : ℕ} {row : α} {statement : Statement O.key} (h : rows[i]? = some row)
    (hstatement : O.rowStatement row (ends i) = some statement) (x : Option α) :
    O.ownAt rows ends i x = statement.own x := by
  simp [ownAt, h, hstatement]

theorem touches_iff {i j : ℕ} {rowi rowj : α} (hi : rows[i]? = some rowi)
    (hj : rows[j]? = some rowj) :
    O.touches rows i j = O.selects (O.key rowi) (O.key rowj) := by
  simp [touches, hi, hj]

theorem exists_touching {i j : ℕ} (h : O.touches rows i j = true) :
    ∃ rowi rowj, rows[i]? = some rowi ∧ rows[j]? = some rowj ∧
      O.selects (O.key rowi) (O.key rowj) = true := by
  simpa [touches, Option.any_eq_true] using h

variable [DecidableEq κ]

theorem get?_effect {j : ℕ} {rowj : α} (hj : rows[j]? = some rowj) (i : ℕ) (t : Table O.key) :
    ((O.batch rows ends).effect i t).get? (O.key rowj) =
      if O.touches rows i j then O.ownAt rows ends i (t.get? (O.key rowj))
      else t.get? (O.key rowj) := by
  cases hi : rows[i]? with
  | none => simp [batch, touches, hi]
  | some rowi =>
    cases hstatement : O.rowStatement rowi (ends i) with
    | none => simp [batch, touches, ownAt, runStatement, hi, hstatement]
    | some statement =>
      simp only [batch, touches, ownAt, runStatement, hi, hj, hstatement, Option.elim_some,
        Option.any_some, Option.bind_some]
      exact statement.get?_run _ _ _

theorem get?_shared {t : Table O.key} {past : List Batch.Input}
    {s : Batch.State (Table O.key)} (hpicked : O.Picked t rows)
    (h : (O.batch rows ends).Runs t past s) {j : ℕ} {row : α} (hj : rows[j]? = some row) :
    s.shared.get? (O.key row) =
      (s.log.filter (O.touches rows · j)).foldr (O.ownAt rows ends) (some row) := by
  rw [← hpicked.get? row (List.mem_of_getElem? hj)]
  exact Batch.get_shared (fun x => x.get? (O.key row)) (O.touches rows · j) (O.ownAt rows ends)
    (fun i x => get?_effect hj i x) h

/-! ## When every row is as its own end has left it -/

theorem Picked.index_inj {t : Table O.key} (hpicked : O.Picked t rows) {i j : ℕ} {rowi rowj : α}
    (hi : rows[i]? = some rowi) (hj : rows[j]? = some rowj) (hkey : O.key rowi = O.key rowj) :
    i = j := by
  have hi' : (rows.map O.key)[i]? = some (O.key rowi) := by simp [hi]
  have hj' : (rows.map O.key)[j]? = some (O.key rowj) := by simp [hj]
  have hlt := (List.getElem?_eq_some_iff.mp hi').1
  exact (List.getElem?_inj hlt hpicked.nodup).mp (by rw [hi', hj', hkey])

section Main

variable {t : Table O.key} (hpicked : O.Picked t rows)
include hpicked

/-- Statements that select a row by its whole key change no other row. -/
theorem unshared_of_exact (hexact : ∀ k k', O.selects k k' = true → k' = k) :
    O.Unshared rows ends := by
  intro i j rowi rowj hne hi hj hselects
  refine absurd (hpicked.index_inj hi hj ?_) hne
  exact (hexact _ _ hselects).symm

theorem ownEffects_of_isolated (hself : ∀ k, O.selects k k = true)
    (hidem : ∀ e, O.ok e = true → ∀ x,
      (O.statement e).own ((O.statement e).own x) = (O.statement e).own x)
    (hiso : (O.batch rows ends).Isolated) (hunshared : O.Unshared rows ends) :
    O.OwnEffects t rows ends := by
  intro past s hrun hret j row hj
  have hmem : (O.batch rows ends).Acts j → j ∈ s.log := Batch.mem_log_of_isolated hiso hrun hret
  constructor
  · intro hreq
    have htask : (O.batch rows ends).prepared[j]? = some .task := by
      rw [prepared_eq hj, Preparation.prepared_eq_task.mpr hreq]
    exact Batch.isSent_of_mem_log hrun (hmem (.inl htask)) htask
  · -- the statements that have selected the row
    have hfilter : ∀ i ∈ s.log.filter (O.touches rows · j), ∃ rowi, rows[i]? = some rowi ∧
        O.rowStatement rowi (ends i) ≠ none ∧
          (i ≠ j → O.rowStatement rowi (ends i) = O.rowStatement row (ends j)) := by
      intro i hi
      obtain ⟨hlog, htouches⟩ := List.mem_filter.mp hi
      obtain ⟨rowi, rowj, hrowi, hrowj, hselects⟩ := exists_touching htouches
      obtain rfl : rowj = row := Option.some.inj (hrowj.symm.trans hj)
      have hacts := rowStatement_of_acts hrowi (Batch.acts_of_mem_log hrun hlog)
      exact ⟨rowi, hrowi, hacts, fun hne =>
        (hunshared i j rowi rowj hne hrowi hj hselects).resolve_left hacts⟩
    rw [get?_shared hpicked hrun hj, ownEffect]
    cases hstatement : O.rowStatement row (ends j) with
    | none =>
      have hnil : s.log.filter (O.touches rows · j) = [] := by
        refine List.eq_nil_iff_forall_not_mem.mpr fun i hi => ?_
        obtain ⟨rowi, hrowi, hacts, heq⟩ := hfilter i hi
        by_cases hij : i = j
        · subst hij
          obtain rfl := Option.some.inj (hrowi.symm.trans hj)
          exact hacts hstatement
        · exact hacts ((heq hij).trans hstatement)
      rw [hnil]
      rfl
    | some statement =>
      have hjlog : j ∈ s.log.filter (O.touches rows · j) := by
        refine List.mem_filter.mpr ⟨hmem (acts_of_rowStatement hj (by simp [hstatement])), ?_⟩
        rw [touches_iff hj hj, hself]
      refine foldr_own ((Batch.inv_of_run hrun).nodup.filter _) hjlog (fun i hi => ?_)
        (fun i hi hne => ?_) _
      · obtain ⟨rowi, hrowi, hacts, heq⟩ := hfilter i hi
        funext x
        by_cases hij : i = j
        · subst hij
          exact ownAt_eq hj hstatement x
        · exact ownAt_eq hrowi ((heq hij).trans hstatement) x
      · -- a second row with the same statement: neither of the two transactions can have failed
        obtain ⟨rowi, hrowi, -, heq⟩ := hfilter i hi
        have hi' := (heq hne).trans hstatement
        cases hprep : O.prepare row with
        | request r =>
          obtain rfl : O.statement (ends j) = statement := by
            simpa [rowStatement, hprep] using hstatement
          cases hprepi : O.prepare rowi with
          | request ri =>
            refine hidem _ ?_
            by_contra hok
            refine hiso j i hne.symm (.inr ⟨?_, by simpa [batch] using hok⟩) (.inl ?_)
            · rw [prepared_eq hj, hprep, Preparation.prepared]
            · rw [prepared_eq hrowi, hprepi, Preparation.prepared]
          | remove =>
            have hdelete : Statement.delete = O.statement (ends j) := by
              simpa [rowStatement, hprepi] using hi'
            simp [← hdelete]
          | skip => simp [rowStatement, hprepi] at hi'
          | abort => simp [rowStatement, hprepi] at hi'
        | remove =>
          obtain rfl : Statement.delete = statement := by
            simpa [rowStatement, hprep] using hstatement
          exact fun _ => rfl
        | skip => simp [rowStatement, hprep] at hstatement
        | abort => simp [rowStatement, hprep] at hstatement

/-- Rows that are removed in the loop are selected by no statement for another. -/
theorem isolated_of_ownEffects
    (hexact : ∀ row, O.prepare row = .remove → ∀ k, O.selects k (O.key row) → k = O.key row)
    (hown : O.OwnEffects t rows ends) : (O.batch rows ends).Isolated := by
  intro i j hne hfails hloses
  obtain ⟨past, s, hrun, hret, hlog, hsent⟩ := @Batch.exists_lost _ _ t _ _ hne hfails hloses
  obtain htask | ⟨-, -, hnow⟩ := hloses
  · obtain ⟨row, hj, hprep⟩ := exists_row htask
    have hreq := Preparation.prepared_eq_task.mp hprep
    exact hsent ((hown past s hrun (by simp [hret]) j row hj).1 hreq)
  · obtain ⟨row, hj, hprep⟩ := exists_row hnow
    have hremove := Preparation.prepared_eq_now.mp hprep
    have hget := (hown past s hrun (by simp [hret]) j row hj).2
    have hnil : s.log.filter (O.touches rows · j) = [] := by
      refine List.eq_nil_iff_forall_not_mem.mpr fun k hk => ?_
      obtain ⟨hklog, htouches⟩ := List.mem_filter.mp hk
      obtain ⟨rowk, rowj, hrowk, hrowj, hselects⟩ := exists_touching htouches
      obtain rfl : rowj = row := Option.some.inj (hrowj.symm.trans hj)
      have hkey := hexact rowj hremove _ hselects
      have hkj := hpicked.index_inj hrowk hrowj hkey
      exact hlog (hkj ▸ hklog)
    rw [get?_shared hpicked hrun hj, hnil, ownEffect, rowStatement, hremove] at hget
    simp [Statement.own] at hget

end Main

end

end RowOperation

end Foundation
