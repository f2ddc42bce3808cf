import Fhevm.Listener.Ingestion

/-!
# The order in which blocks are recorded

Blocks are recorded in any order, some of them more than once, and blocks of competing forks can
hold the same transaction. A row that is there is kept, so the first block that has a row for a key
decides.

## Main definitions

* `ingest` — blocks recorded one after the other.
* `OrderIndependent` — all orders lead to the same tables.
* `AllowsMarked` — a computation is marked where a block with its transaction allows its result.
* `RowsAgree`, `AllowsAgree` — the exact conditions on the blocks.
-/

namespace Fhevm.Listener

open Foundation Host Worker

variable (K : ListenerConfig)

/-! ## Runs -/

/-- Blocks recorded one after the other, each at its time. -/
def ingest (db : ListenerDb) (l : List (ℕ × BlockLogs)) : ListenerDb :=
  l.foldl (fun db entry => dbInsertBlockNoRetry K entry.1 db entry.2) db

/-- A computation without its time. -/
def untimed (c : Worker.Computation) : Worker.Computation := { c with scheduleOrder := 0 }

structure SameTables (db db' : ListenerDb) : Prop where
  computations : Table.SameRows untimed db.computations db'.computations
  allowedHandles : Table.SameRows id db.allowedHandles db'.allowedHandles
  pbsComputations : Table.SameRows id db.pbsComputations db'.pbsComputations

/-- The blocks lead to the same tables in all orders, each recorded once or more. -/
def OrderIndependent (db : ListenerDb) (blocks : List BlockLogs) : Prop :=
  ∀ l l', Covers (l.map Prod.snd) blocks → Covers (l'.map Prod.snd) blocks →
    SameTables (ingest K db l) (ingest K db l')

def BlockLogs.hasTransaction (block : BlockLogs) (tx : Handle) : Prop :=
  ∃ log ∈ block.logs, log.transactionHash = tx

/-- A computation that the blocks record is marked, if one of them contains its transaction and
allows its result. -/
def AllowsMarked (db : ListenerDb) (blocks : List BlockLogs) : Prop :=
  ∀ l, Covers (l.map Prod.snd) blocks → ∀ c ∈ (ingest K db l).computations.rows,
    db.computations.get? c.key = none →
      ∀ b ∈ blocks, b.hasTransaction c.transactionId →
        c.outputHandle ∈ (allowedIn K b).map wordBytes → c.isAllowed = true

/-! ## Conditions -/

/-- Blocks that have rows for a new key have the same first row for it. -/
structure RowsAgree (db : ListenerDb) (blocks : List BlockLogs) : Prop where
  computations : db.computations.BatchesAgree Computation.key (computationRows K 0) blocks
  allowedHandles : db.allowedHandles.BatchesAgree AllowedHandle.key (allowedHandleRows K) blocks
  pbsComputations :
    db.pbsComputations.BatchesAgree PbsComputation.key (pbsComputationRows K) blocks

/-- A block with a new computation allows its result, if another block with the same transaction
does. -/
def AllowsAgree (db : ListenerDb) (blocks : List BlockLogs) : Prop :=
  ∀ b ∈ blocks, ∀ b' ∈ blocks, ∀ c ∈ computationRows K 0 b, db.computations.get? c.key = none →
    b'.hasTransaction c.transactionId → c.outputHandle ∈ (allowedIn K b').map wordBytes →
      c.outputHandle ∈ (allowedIn K b).map wordBytes

variable {K} {db : ListenerDb} {blocks : List BlockLogs}

/-! ## Tables of a run -/

theorem key_untimed (c : Worker.Computation) : (untimed c).key = c.key := rfl

theorem ingest_eq (l : List (ℕ × BlockLogs)) :
    (ingest K db l).computations = db.computations.load (fun e => computationRows K e.1 e.2) l ∧
      (ingest K db l).allowedHandles = db.allowedHandles.load (fun e => allowedHandleRows K e.2) l ∧
      (ingest K db l).pbsComputations =
        db.pbsComputations.load (fun e => pbsComputationRows K e.2) l := by
  induction l generalizing db with
  | nil => exact ⟨rfl, rfl, rfl⟩
  | cons e l ih =>
    have hstep : ingest K db (e :: l) = ingest K (dbInsertBlockNoRetry K e.1 db e.2) l := rfl
    rw [hstep, dbInsertBlockNoRetry_eq]
    exact ih

theorem untimed_insertTfheEvent (now : ℕ) (log : LogTfhe) :
    (insertTfheEvent K.tenantId now log).map untimed = insertTfheEvent K.tenantId 0 log := by
  obtain ⟨event, tx, isAllowed⟩ := log
  cases event <;> rfl

theorem map_untimed_computationRows (now : ℕ) (b : BlockLogs) :
    (computationRows K now b).map untimed = computationRows K 0 b := by
  simp only [computationRows, List.map_filterMap, untimed_insertTfheEvent]

/-- The flag of a row tells whether its block allows its result. -/
theorem isAllowed_iff {now : ℕ} {b : BlockLogs} {c : Worker.Computation}
    (hc : c ∈ computationRows K now b) :
    c.isAllowed = true ↔ c.outputHandle ∈ (allowedIn K b).map wordBytes := by
  simp only [computationRows, List.mem_filterMap, List.mem_map] at hc
  obtain ⟨_, ⟨⟨event, tx, flag⟩, -, rfl⟩, hrow⟩ := hc
  have hmem : ∀ result : Bytes32,
      wordBytes result ∈ (allowedIn K b).map wordBytes ↔ result ∈ allowedIn K b := fun result =>
    List.mem_map_of_injective wordBytes_injective
  cases event with
  | verifyInput => cases hrow
  | _ =>
    cases hrow
    simp only [insertComputation, insertComputationBytes, hmem, markAllowed, tfheResultHandle,
      decide_eq_true_eq]

/-! ## When the order does not matter -/

/-- All orders lead to the same tables exactly if the blocks agree on the rows of new keys. -/
theorem orderIndependent_iff_rowsAgree : OrderIndependent K db blocks ↔ RowsAgree K db blocks := by
  have hsurj : Function.Surjective (Prod.snd : ℕ × BlockLogs → BlockLogs) := Prod.snd_surjective
  have hcomputations := Table.sameRows_load_iff db.computations
    (fun e : ℕ × BlockLogs => computationRows K e.1 e.2) Computation.key key_untimed
    (fun e => map_untimed_computationRows e.1 e.2) hsurj blocks
  have hallowed := Table.sameRows_load_iff db.allowedHandles
    (fun e : ℕ × BlockLogs => allowedHandleRows K e.2) AllowedHandle.key
    (fun _ => congrArg AllowedHandle.key (id_eq _)) (fun e => List.map_id _) hsurj blocks
  have hpbs := Table.sameRows_load_iff db.pbsComputations
    (fun e : ℕ × BlockLogs => pbsComputationRows K e.2) PbsComputation.key
    (fun _ => congrArg PbsComputation.key (id_eq _)) (fun e => List.map_id _) hsurj blocks
  constructor
  · intro h
    refine ⟨hcomputations.mp fun l l' hl hl' => ?_, hallowed.mp fun l l' hl hl' => ?_,
      hpbs.mp fun l l' hl hl' => ?_⟩
    · have hsame := (h l l' hl hl').computations
      rwa [(ingest_eq l).1, (ingest_eq l').1] at hsame
    · have hsame := (h l l' hl hl').allowedHandles
      rwa [(ingest_eq l).2.1, (ingest_eq l').2.1] at hsame
    · have hsame := (h l l' hl hl').pbsComputations
      rwa [(ingest_eq l).2.2, (ingest_eq l').2.2] at hsame
  · intro h l l' hl hl'
    refine ⟨?_, ?_, ?_⟩
    · rw [(ingest_eq l).1, (ingest_eq l').1]
      exact hcomputations.mpr h.computations l l' hl hl'
    · rw [(ingest_eq l).2.1, (ingest_eq l').2.1]
      exact hallowed.mpr h.allowedHandles l l' hl hl'
    · rw [(ingest_eq l).2.2, (ingest_eq l').2.2]
      exact hpbs.mpr h.pbsComputations l l' hl hl'

/-- A new computation has the flag that its first block gives it. -/
theorem get?_ingest {l : List (ℕ × BlockLogs)} {c : Worker.Computation}
    (hc : c ∈ (ingest K db l).computations.rows) (hnew : db.computations.get? c.key = none) :
    (l.map Prod.snd).findSome?
      (fun b => (computationRows K 0 b).find? fun a => a.key = c.key) = some (untimed c) := by
  have hget := Table.map_get?_load (t := db.computations) key_untimed
    (fun e : ℕ × BlockLogs => map_untimed_computationRows (K := K) e.1 e.2) l c.key
  rw [← (ingest_eq l).1, Table.get?_eq_some.mpr ⟨hc, rfl⟩, hnew] at hget
  exact hget.symm

/-- Computations are marked in all orders exactly if the blocks with a transaction agree on the
results that they allow. -/
theorem allowsMarked_iff_allowsAgree : AllowsMarked K db blocks ↔ AllowsAgree K db blocks := by
  constructor
  · intro h b hb b' hb' c hc hnew htx hallowed
    -- `b` is recorded first, and so is the first of its rows with the key
    let l : List (ℕ × BlockLogs) := (0, b) :: blocks.map fun b => (0, b)
    have hcovers : Covers (l.map Prod.snd) blocks := by
      intro d
      simp only [l, List.map_cons, List.map_map, Function.comp_def, List.map_id', List.mem_cons]
      exact or_iff_right_of_imp fun hd => hd ▸ hb
    obtain ⟨first, hfirst⟩ : ∃ first, (computationRows K 0 b).find? (fun a => a.key = c.key) =
        some first := Option.isSome_iff_exists.mp (List.find?_isSome.mpr ⟨c, hc, by simp⟩)
    have hkey : first.key = c.key := by simpa using List.find?_some hfirst
    have hget := Table.map_get?_load (t := db.computations) key_untimed
      (fun e : ℕ × BlockLogs => map_untimed_computationRows (K := K) e.1 e.2) l c.key
    rw [← (ingest_eq l).1, hnew, Option.map_none, Option.none_or, List.map_cons,
      List.findSome?_cons, hfirst] at hget
    obtain ⟨row, hrow, rfl⟩ := Option.map_eq_some_iff.mp hget
    obtain ⟨hmem, hrowkey⟩ := Table.get?_eq_some.mp hrow
    have houtput : row.outputHandle = c.outputHandle := congrArg (·.2.1) hrowkey
    have htransaction : row.transactionId = c.transactionId := congrArg (·.2.2) hrowkey
    have hmarked : row.isAllowed = true := h l hcovers row hmem (hrowkey ▸ hnew) b' hb'
      (htransaction ▸ htx) (houtput ▸ hallowed)
    exact houtput ▸ (isAllowed_iff (List.mem_of_find?_eq_some hfirst)).mp hmarked
  · intro h l hl c hc hnew b' hb' htx hallowed
    have hfound := get?_ingest hc hnew
    obtain ⟨b, hb, hrow⟩ := List.exists_of_findSome?_eq_some hfound
    have hrow := List.mem_of_find?_eq_some hrow
    have hmarked : (untimed c).isAllowed = true := (isAllowed_iff hrow).mpr <|
      h b ((hl b).mp hb) b' hb' (untimed c) hrow hnew htx hallowed
    exact hmarked

/-- Recording blocks gives the same tables in every order, with all computations marked that some
block allows, exactly if the blocks agree on the rows of new keys and on the results that they
allow of a transaction. -/
theorem ingestion_commutes_iff (K : ListenerConfig) (db : ListenerDb) (blocks : List BlockLogs) :
    OrderIndependent K db blocks ∧ AllowsMarked K db blocks ↔
      RowsAgree K db blocks ∧ AllowsAgree K db blocks :=
  and_congr orderIndependent_iff_rowsAgree allowsMarked_iff_allowsAgree

/-! ## Two forks -/

def sampleListener : ListenerConfig := ⟨1, 5, some 0xac1, some 0xe⟩

/-- A trivial encryption of one in a transaction. -/
def encryption (tx : UInt8) : HostLog := ⟨0xe, .tfhe (.trivialEncrypt 9 1 .uint8 77), [tx]⟩

/-- Two transactions compute a handle, and the second one allows it. -/
def longBlock : BlockLogs where
  logs := [encryption 1, encryption 2, ⟨0xac1, .acl (.allowed 9 9 77), [2]⟩]
  summary := ⟨10, [0xa], [0]⟩

/-- On a competing fork, the block has the first transaction only. -/
def shortBlock : BlockLogs where
  logs := [encryption 1]
  summary := ⟨10, [0xb], [0]⟩

/-- The computation of the first transaction, recorded of the short block. -/
def unmarked : Worker.Computation where
  tenantId := 1
  outputHandle := wordBytes 77
  dependencies := [wordBytes 1, [2]]
  fheOperation := SupportedFheOperations.fheTrivialEncrypt.toInt
  isScalar := true
  isAllowed := false
  transactionId := [1]
  scheduleOrder := 0

/-- The tables depend on which of the two forks is recorded first, and the computation of the first
transaction stays unmarked when it is the short one, although the long one allows its result. -/
theorem forks_not_commute :
    ¬ (OrderIndependent sampleListener .empty [longBlock, shortBlock] ∧
      AllowsMarked sampleListener .empty [longBlock, shortBlock]) ∧
    unmarked ∈ (ingest sampleListener .empty [(0, shortBlock), (0, longBlock)]).computations.rows ∧
    unmarked ∉ (ingest sampleListener .empty [(0, longBlock), (0, shortBlock)]).computations.rows := by
  have hshort : unmarked ∈
      (ingest sampleListener .empty [(0, shortBlock), (0, longBlock)]).computations.rows := by
    decide +kernel
  refine ⟨fun h => ?_, hshort, by decide +kernel⟩
  have hmarked := h.2 [(0, shortBlock), (0, longBlock)]
    (fun b => by simp [or_comm]) unmarked hshort (by decide) longBlock (by simp)
    ⟨encryption 1, by simp [longBlock], rfl⟩ (by decide +kernel)
  cases hmarked

end Fhevm.Listener
