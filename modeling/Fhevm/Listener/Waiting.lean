import Fhevm.Listener.IngestionOrder
import Fhevm.Listener.ListenerRun

/-!
# Recorded and waiting blocks

What an insertion adds to the recorded blocks, and when a queue of blocks can be recorded one after
the other such that each comes behind its ancestors.

## Main definitions

* `Follows` — a waiting block comes behind its ancestors.
* `QueueOk` — all blocks of a queue do.
* `Ahead` — the logs that are recorded or wait.
-/

namespace Fhevm.Listener

open Foundation Host Worker

variable {K : ListenerConfig} {W : World}

/-! ## Recorded blocks -/

section Recorded

variable {db : ListenerDb} {b block : BlockLogs} {now : ℕ}

/-- Only the logs of a block are recorded. -/
theorem Recorded.congr (h : Recorded K db b) (hlogs : b.logs = block.logs) :
    Recorded K db block := by
  obtain ⟨logs, summary⟩ := b
  obtain ⟨logs', summary'⟩ := block
  obtain rfl : logs = logs' := hlogs
  exact ⟨h.computations, h.allowedHandles, h.pbsComputations⟩

theorem recorded_of_logs_eq_nil (h : b.logs = []) : Recorded K db b := by
  obtain ⟨logs, summary⟩ := b
  obtain rfl : logs = [] := h
  refine ⟨?_, ?_, ?_⟩ <;>
    simp [computationRows, tfheEvents, allowedHandleRows, pbsComputationRows, aclEvents]

theorem Recorded.insert (h : Recorded K db b) :
    Recorded K (dbInsertBlockNoRetry K now db block) b := by
  rw [dbInsertBlockNoRetry_eq]
  exact ⟨fun c hc => Table.mem_keys_insertAll.mpr (.inl (h.computations c hc)),
    fun a ha => Table.mem_keys_insertAll.mpr (.inl (h.allowedHandles a ha)),
    fun p hp => Table.mem_keys_insertAll.mpr (.inl (h.pbsComputations p hp))⟩

theorem recorded_insert : Recorded K (dbInsertBlockNoRetry K now db block) block := by
  rw [dbInsertBlockNoRetry_eq]
  refine ⟨fun c hc => Table.mem_keys_insertAll.mpr (.inr ?_),
    fun a ha => Table.mem_keys_insertAll.mpr (.inr (List.mem_map_of_mem ha)),
    fun p hp => Table.mem_keys_insertAll.mpr (.inr (List.mem_map_of_mem hp))⟩
  rw [← map_untimed_computationRows now, List.mem_map] at hc
  obtain ⟨c, hc, rfl⟩ := hc
  exact List.mem_map.mpr ⟨c, hc, rfl⟩

/-- The last valid block is the one before or the one that is inserted. -/
theorem readLastValidBlock_insert {m : ℤ}
    (h : readLastValidBlock K (dbInsertBlockNoRetry K now db block) = some m) :
    readLastValidBlock K db = some m ∨ m = block.summary.number := by
  rw [dbInsertBlockNoRetry_eq] at h
  simp only [readLastValidBlock, Table.insert] at h ⊢
  split at h
  · exact .inl h
  · rw [List.filter_append, List.map_append, List.max?_eq_some_iff] at h
    obtain ⟨hmem, hle⟩ := h
    rcases List.mem_append.mp hmem with hold | hnew
    · exact .inl (List.max?_eq_some_iff.mpr ⟨hold, fun n hn =>
        hle n (List.mem_append_left _ hn)⟩)
    · exact .inr (by simpa using hnew)

/-- An insertion that is retried often enough is made, and otherwise nothing happens. -/
theorem dbInsertBlock_eq (failures : ℕ) :
    dbInsertBlock K now db block failures =
      if failures ≤ DB_INSERT_RETRIES then dbInsertBlockNoRetry K now db block else db := by
  have hfrom : ∀ retries failures, dbInsertBlockFrom K now db block retries failures =
      if failures ≤ retries then dbInsertBlockNoRetry K now db block else db := by
    intro retries
    induction retries with
    | zero =>
      intro failures
      cases failures <;> simp [dbInsertBlockFrom]
    | succ retries ih =>
      intro failures
      cases failures with
      | zero => simp [dbInsertBlockFrom]
      | succ failures => simpa [dbInsertBlockFrom] using ih failures
  exact hfrom _ _

end Recorded

/-! ## Blocks that wait -/

section Queue

variable (W) (margin : ℕ) (tip : BlockLogs)

/-- A waiting block is one of the world, whose ancestors are recorded or come before it, and which
the canonical chain does not leave too early. -/
def Follows (R : List HostLog → Prop) (q : BlockLogs) : Prop :=
  ∃ b, W.Contains b ∧ b.logs = q.logs ∧ b.summary.number = q.summary.number ∧
    (∀ a, W.tree.Ancestor a b → R a.logs ∨ a.logs = q.logs) ∧
    ∀ a, W.tree.Ancestor a tip → a.summary.number + margin ≤ b.summary.number →
      W.tree.Ancestor a b

/-- Every waiting block comes behind its ancestors. -/
def QueueOk : (List HostLog → Prop) → List BlockLogs → Prop
  | _, [] => True
  | R, q :: rest => Follows W margin tip R q ∧ QueueOk (fun logs => R logs ∨ logs = q.logs) rest

variable {W margin tip}

theorem QueueOk.mono {R R' : List HostLog → Prop} {l : List BlockLogs}
    (h : QueueOk W margin tip R l) (hR : ∀ logs, R logs → R' logs) :
    QueueOk W margin tip R' l := by
  induction l generalizing R R' with
  | nil => trivial
  | cons q rest ih =>
    obtain ⟨⟨b, hb, hlogs, hnumber, hancestors, hshallow⟩, hrest⟩ := h
    exact ⟨⟨b, hb, hlogs, hnumber, fun a ha => (hancestors a ha).imp_left (hR _), hshallow⟩,
      ih hrest fun logs => Or.imp_left (hR logs)⟩

/-- The logs that are recorded or wait. -/
def Ahead (R : List HostLog → Prop) (l : List BlockLogs) (logs : List HostLog) : Prop :=
  R logs ∨ ∃ q ∈ l, q.logs = logs

theorem queueOk_append {R : List HostLog → Prop} {l l' : List BlockLogs} :
    QueueOk W margin tip R (l ++ l') ↔
      QueueOk W margin tip R l ∧ QueueOk W margin tip (Ahead R l) l' := by
  induction l generalizing R with
  | nil =>
    have hR : Ahead R [] = R := by
      funext logs
      simp [Ahead]
    simp [QueueOk, hR]
  | cons q l ih =>
    have hR : Ahead (fun logs => R logs ∨ logs = q.logs) l = Ahead R (q :: l) := by
      funext logs
      simp [Ahead, or_assoc, eq_comm]
    rw [List.cons_append, QueueOk, QueueOk, ih, hR, and_assoc]

/-- The tip may move, as long as the chain of no waiting block is left too early. -/
theorem QueueOk.move {R : List HostLog → Prop} {l : List BlockLogs} {tip' : BlockLogs}
    (h : QueueOk W margin tip R l)
    (hmove : ∀ a, W.tree.Ancestor a tip' → ∀ q ∈ l, a.summary.number + margin ≤ q.summary.number →
      W.tree.Ancestor a tip) : QueueOk W margin tip' R l := by
  induction l generalizing R with
  | nil => trivial
  | cons q rest ih =>
    obtain ⟨⟨b, hb, hlogs, hnumber, hancestors, hshallow⟩, hrest⟩ := h
    exact ⟨⟨b, hb, hlogs, hnumber, hancestors, fun a ha hle => hshallow a
      (hmove a ha q List.mem_cons_self (by omega)) hle⟩,
      ih hrest fun a ha q hq => hmove a ha q (List.mem_cons_of_mem _ hq)⟩

end Queue

end Fhevm.Listener
