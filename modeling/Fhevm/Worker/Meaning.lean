import Fhevm.Scheduler.Meaning
import Fhevm.Scheduler.RowOrder
import Fhevm.Worker.PrunedHandles

/-!
# The database keeps meanings

If the operation of every computation of a tenant takes meant operands to a meant result, then
whatever the workers, the other services and the other tenants do, all ciphertexts that the
database has of the tenant are meant.

## Main definitions

* `SoundDatabase` — the rows of a tenant are sound.
* `SoundStep` — a worker commits a cycle, or sound rows are inserted.
* `SoundDatabase.steps` — the database stays sound.
-/

namespace Fhevm.Worker

open Foundation Scheduler

variable {R S ε : Type} {eng : FheEngine R S ε} {means : Handle → SupportedFheCiphertexts R → Prop}

/-! ## Sound rows -/

/-- The operation of the row, if it has one, takes meant operands to a meant result. -/
def SoundRow (eng : FheEngine R S ε) (means : Handle → SupportedFheCiphertexts R → Prop)
    (c : Computation) : Prop := ∀ op, c.toOp = .ok op → SoundOp eng means op

/-- The stored ciphertext is meant. -/
def MeantRow (eng : FheEngine R S ε) (means : Handle → SupportedFheCiphertexts R → Prop)
    (c : Ciphertext) : Prop := StoredMeans eng means c.handle (c.ciphertextType, c.ciphertext)

/-- The rows of a tenant are sound. -/
structure SoundDatabase (eng : FheEngine R S ε)
    (means : Handle → SupportedFheCiphertexts R → Prop) (tenantId : ℤ) (db : Database) : Prop where
  computations : ∀ c ∈ db.computations.rows, c.tenantId = tenantId → SoundRow eng means c
  ciphertexts : ∀ c ∈ db.ciphertexts.rows, c.tenantId = tenantId → MeantRow eng means c

section Rows

variable {tenantId : ℤ} {db : Database}

theorem SoundDatabase.insertComputation (h : SoundDatabase eng means tenantId db) {c : Computation}
    (hc : c.tenantId = tenantId → SoundRow eng means c) :
    SoundDatabase eng means tenantId (db.insertComputation c) where
  computations := Table.forall_insert h.computations hc
  ciphertexts := h.ciphertexts

theorem SoundDatabase.insertCiphertext (h : SoundDatabase eng means tenantId db) {c : Ciphertext}
    (hc : c.tenantId = tenantId → MeantRow eng means c) :
    SoundDatabase eng means tenantId (db.insertCiphertext c) where
  computations := h.computations
  ciphertexts := Table.forall_insert h.ciphertexts hc

theorem SoundDatabase.updateTenant (h : SoundDatabase eng means tenantId db) (t : ℤ)
    (keys : List OutputKey) {f : Computation → Computation} (hf : ∀ c, (f c).key = c.key)
    (hop : ∀ c, (f c).toOp (R := R) = c.toOp) :
    SoundDatabase eng means tenantId (db.updateTenant t keys f hf) where
  computations := by
    refine @Table.forall_update _ _ _ _ _ _ hf _ h.computations fun c hc htenant => ?_
    have hkey : (f c).tenantId = c.tenantId := congrArg Prod.fst (hf c)
    intro op hop'
    exact hc (hkey ▸ htenant) op (hop c ▸ hop')
  ciphertexts := h.ciphertexts

/-- Statements keep the rows sound, if the ciphertexts that they insert are meant. -/
theorem SoundDatabase.run (h : SoundDatabase eng means tenantId db) (now : ℕ) {st : Statement}
    (hst : ∀ cts, st = .insertCiphertexts cts →
      ∀ c ∈ cts, c.tenantId = tenantId → MeantRow eng means c) :
    SoundDatabase eng means tenantId (st.run now db) := by
  cases st with
  | setError t key message => exact h.updateTenant t [key] _ fun _ => rfl
  | setCompleted t keys => exact h.updateTenant t keys _ fun _ => rfl
  | postpone t keys => exact h.updateTenant t keys _ fun _ => rfl
  | insertCiphertexts cts =>
    have hcts := hst cts rfl
    clear hst
    rw [Statement.run]
    induction cts generalizing db with
    | nil => exact h
    | cons c cts ih =>
      rw [List.forall_mem_cons] at hcts
      exact ih (h.insertCiphertext hcts.1) hcts.2

theorem SoundDatabase.runStatements (h : SoundDatabase eng means tenantId db) (now : ℕ)
    {statements : List Statement} (hst : ∀ cts, .insertCiphertexts cts ∈ statements →
      ∀ c ∈ cts, c.tenantId = tenantId → MeantRow eng means c) :
    SoundDatabase eng means tenantId (db.runStatements now statements) := by
  induction statements generalizing db with
  | nil => exact h
  | cons st statements ih =>
    refine ih (h.run now fun cts hcts => ?_) fun cts hcts => hst cts (List.mem_cons_of_mem _ hcts)
    exact hst cts (hcts ▸ List.mem_cons_self)

end Rows

/-! ## Components of sound operations -/

section Components

variable {T : Toposort}

theorem componentMeans_of_builtFrom {c : ComponentNode R} {operations : List (DFGOp R)}
    (hc : c.BuiltFrom operations) (hops : ∀ op ∈ operations, SoundOp eng means op) :
    ComponentMeans eng means c := by
  refine ⟨⟨operations, hc.nodes, hc.edges, hops⟩, fun e he => ?_⟩
  rw [hc.pending e.1 e.2 (HashMap.get?_eq_some.mpr he)]
  trivial

/-- The components of a transaction are made of its operations. -/
theorem buildComponentNodes_means {operations : List (DFGOp R)} (hnd : DistinctHandles operations)
    (hops : ∀ op ∈ operations, SoundOp eng means op) {tid : Handle} {cs : List (ComponentNode R)}
    {pruned : List (Handle × Handle)}
    (h : buildComponentNodes T operations tid = .ok (cs, pruned)) :
    ∀ c ∈ cs, ComponentMeans eng means c := by
  cases hg : operationGraph (sortByHandle operations) with
  | none =>
    rw [buildComponentNodes_eq_error hg] at h
    cases h
  | some g =>
    obtain ⟨components, unneeded, kept, unkept, hbuild, hsplits⟩ :=
      exists_splitsOperations T tid hnd hg
    obtain ⟨rfl, -⟩ := Prod.mk.inj (Except.ok.inj (h.symm.trans hbuild))
    intro c hc
    obtain ⟨ops, hmem, hbuilt⟩ := forall₂_exists_right hsplits.built hc
    refine componentMeans_of_builtFrom hbuilt fun op hop => hops op (hsplits.perm.mem_iff.mp ?_)
    exact List.mem_append_left _ (List.mem_flatten_of_mem hmem hop)

theorem buildBatch_means {batch : List (Handle × List (DFGOp R))}
    (hbatch : ∀ tx ∈ batch, DistinctHandles tx.2 ∧ ∀ op ∈ tx.2, SoundOp eng means op)
    {cs : List (ComponentNode R)} {pruned : List (Handle × Handle)}
    (h : buildBatch T batch = .ok (cs, pruned)) : ∀ c ∈ cs, ComponentMeans eng means c := by
  refine foldlM_invariant_mem (P := fun s => ∀ c ∈ s.1, ComponentMeans eng means c)
    (fun s tx htx s' hs hstep => ?_) (by simp) h
  unfold addTransaction at hstep
  split at hstep
  · cases hstep
  rename_i hbuild
  cases hstep
  intro c hc
  rcases List.mem_append.mp hc with hc | hc
  · exact hs c hc
  · exact buildComponentNodes_means (hbatch tx htx).1 (hbatch tx htx).2 hbuild c hc

end Components

/-! ## Cycles -/

section Cycle

variable {w : WorkerSetup R S ε} {tenantId : ℤ} {db : Database}

/-- The components of a tenant are made of sound operations. -/
theorem buildTenant_means {T : Toposort} {txs : TenantWork} (hrows : DistinctRows txs)
    (hsound : ∀ tx ∈ txs, ∀ c ∈ tx.2, SoundRow eng means c) {cs : List (ComponentNode R)}
    {unneeded : List OutputKey} (h : buildTenant T txs = .ok (cs, unneeded)) :
    ∀ c ∈ cs, ComponentMeans eng means c := by
  obtain ⟨batch, hbatch, hbuild⟩ := (buildTenant_eq_ok).mp h
  refine buildBatch_means (fun b hb => ⟨(hrows.distinctKeys hbatch).handles b hb, ?_⟩) hbuild
  intro op hop
  obtain ⟨tx, htx, hops⟩ := forall₂_exists_left hbatch hb
  obtain ⟨c, hc, htoOp⟩ := forall₂_exists_left hops.outputHandle hop
  exact hsound tx htx c hc op htoOp

/-- Executing sound components with the ciphertexts of a sound database. -/
theorem executes_means (hkeeps : KeepsMeaning eng means) (hw : w.engine tenantId = eng)
    (hdb : SoundDatabase eng means tenantId db) {components : List (ComponentNode R)}
    (hcomponents : ∀ c ∈ components, ComponentMeans eng means c) {g : DFComponentGraph R ε}
    (h : Executes w db tenantId components g) : GraphMeans eng means g := by
  obtain ⟨hbuild, hrows, hinputs, hload, hrun, -⟩ := h
  rename_i built loaded rows inputs s
  have hbuilt : GraphMeans eng means built := by
    refine ⟨fun n hn => ?_, ?_⟩
    · rw [nodes_build hbuild] at hn
      exact hcomponents n (List.mem_reverse.mp hn)
    · unfold DFComponentGraph.build at hbuild
      simp only at hbuild
      split at hbuild
      · cases hbuild
      · cases hbuild
        simp
  have hmap : (ciphertextMap rows).All (StoredMeans eng means) := by
    refine HashMap.all_empty.insertAll fun e he => ?_
    obtain ⟨c, hc, rfl⟩ := List.mem_map.mp he
    have hqueried := List.mem_filter.mp ((hrows.mem_iff).mp hc)
    simp only [decide_eq_true_eq] at hqueried
    exact hdb.ciphertexts c hqueried.1 hqueried.2.1
  have hloaded : GraphMeans eng means loaded := by
    refine foldlM_invariant_mem (fun g e he g' hg hadd => ?_) hbuilt hload
    have hinput : InputMeans eng means e.1 (some (.compressed e.2.1 e.2.2 true)) :=
      hmap e ((hinputs.mem_iff).mp he)
    exact hg.addInput hinput hadd
  rw [hw] at hrun
  exact hrun.graphMeans hkeeps hloaded

/-- The ciphertexts that an upload inserts are those of the results. -/
theorem mem_ctsToInsert {isFhevmError : ε → Bool} {u : Upload R ε} {c : Ciphertext}
    (h : c ∈ (u.progress isFhevmError).ctsToInsert) : c.tenantId = u.tenantId ∧
      ∃ r ∈ u.graph.results, c.handle = r.handle ∧
        r.compressedCt = .ok (c.ciphertextType, c.ciphertext) := by
  unfold Upload.progress at h
  generalize u.graph.results = results at h ⊢
  suffices hall : ∀ p : UploadProgress,
      c ∈ (results.foldl (uploadResult isFhevmError u.tenantId) p).ctsToInsert →
        c ∈ p.ctsToInsert ∨ (c.tenantId = u.tenantId ∧ ∃ r ∈ results, c.handle = r.handle ∧
          r.compressedCt = .ok (c.ciphertextType, c.ciphertext)) from
    (hall _ h).resolve_left (by simp)
  clear h
  induction results with
  | nil => exact fun p hp => .inl hp
  | cons r results ih =>
    intro p hp
    rcases ih _ hp with hp | ⟨htenant, r', hr', hresult⟩
    · unfold uploadResult at hp
      split at hp
      · rename_i dbType dbBytes hok
        rcases List.mem_append.mp hp with hp | hp
        · exact .inl hp
        · rw [List.mem_singleton.mp hp]
          exact .inr ⟨rfl, r, List.mem_cons_self, rfl, hok⟩
      · dsimp only at hp
        split at hp <;> exact .inl hp
    · exact .inr ⟨htenant, r', List.mem_cons_of_mem _ hr', hresult⟩

/-- The upload of an execution keeps the database sound. -/
theorem SoundDatabase.upload (hdb : SoundDatabase eng means tenantId db) {u : Upload R ε}
    (hu : u.tenantId = tenantId → GraphMeans eng means u.graph) (isFhevmError : ε → Bool)
    (now : ℕ) :
    SoundDatabase eng means tenantId (db.runStatements now (u.statements isFhevmError)) := by
  refine hdb.runStatements now fun cts hcts c hc htenant => ?_
  rw [Upload.statements_eq, List.mem_append, List.mem_flatMap] at hcts
  rcases hcts with ⟨result, -, hresult⟩ | hcts
  · obtain ⟨message, heq⟩ := mem_errorStatements hresult
    cases heq
  · simp only [List.mem_cons, Statement.insertCiphertexts.injEq, reduceCtorEq, List.not_mem_nil,
      or_false] at hcts
    subst hcts
    obtain ⟨hsame, r, hr, hhandle, hok⟩ := mem_ctsToInsert hc
    rw [MeantRow, hhandle]
    exact (hu (hsame.symm.trans htenant)).results r hr _ hok

/-- Tenants are processed one after the other, each with what the ones before it have stored. -/
theorem SoundDatabase.processesTenants (hkeeps : KeepsMeaning eng means)
    (hw : w.engine tenantId = eng) (hdb : SoundDatabase eng means tenantId db) {now : ℕ}
    {transactions : List (ℤ × List (ComponentNode R))} {unneeded : List OutputKey}
    {uploads : List (Upload R ε)}
    (htransactions : ∀ tx ∈ transactions, tx.1 = tenantId → ∀ c ∈ tx.2, ComponentMeans eng means c)
    (h : ProcessesTenants w now transactions unneeded db uploads) :
    SoundDatabase eng means tenantId
      (db.runStatements now (uploads.flatMap (Upload.statements w.isFhevmError))) := by
  induction h with
  | nil => exact hdb
  | @cons t components g transactions unneeded db uploads hexec hrest ih =>
    rw [List.forall_mem_cons] at htransactions
    rw [List.flatMap_cons, Database.runStatements_append]
    refine ih (hdb.upload (fun ht => ?_) _ _) htransactions.2
    obtain rfl : t = tenantId := ht
    exact executes_means hkeeps hw hdb (htransactions.1 rfl) hexec

/-- A worker that commits a cycle keeps the database sound. -/
theorem SoundDatabase.cycle (hkeeps : KeepsMeaning eng means) (hw : w.engine tenantId = eng)
    (hdb : SoundDatabase eng means tenantId db) (c : WorkerCycle w db) :
    SoundDatabase eng means tenantId c.database := by
  obtain ⟨bs, hprepared, htransactions, -⟩ := prepareWork_eq_ok c.prepared
  refine hdb.processesTenants hkeeps hw (fun tx htx ht => ?_) c.processed
  rw [htransactions] at htx
  obtain ⟨b, hb, rfl⟩ := List.mem_map.mp htx
  obtain ⟨tenant, htenant, hbuilt⟩ := forall₂_exists_left hprepared hb
  have hrows : DistinctRows tenant.2 :=
    ⟨c.grouped.nodup_tx htenant, fun tx htx => c.grouped.nodup_handles c.fetched htenant htx⟩
  refine buildTenant_means hrows (fun tx htx row hrow => ?_) hbuilt.built
  rw [c.grouped.mem_tx htenant htx] at hrow
  simp only [List.mem_filter, decide_eq_true_eq] at hrow
  have hmem : row ∈ db.computations.rows := c.fetched.subperm.subset hrow.1.1
  exact hdb.computations row hmem (hrow.1.2.trans (hbuilt.tenantId.symm.trans ht))

end Cycle

/-! ## Runs -/

/-- A worker with the keys of the tenant commits a cycle, or another service inserts a row. The rows
of the tenant are sound; those of other tenants are not looked at. -/
inductive SoundStep (eng : FheEngine R S ε) (means : Handle → SupportedFheCiphertexts R → Prop)
    (tenantId : ℤ) : Database → Database → Prop
  | cycle {db : Database} (w : WorkerSetup R S ε) (hw : w.engine tenantId = eng)
      (c : WorkerCycle w db) : SoundStep eng means tenantId db c.database
  | insertComputation {db : Database} (c : Computation)
      (hc : c.tenantId = tenantId → SoundRow eng means c) :
      SoundStep eng means tenantId db (db.insertComputation c)
  | insertCiphertext {db : Database} (c : Ciphertext)
      (hc : c.tenantId = tenantId → MeantRow eng means c) :
      SoundStep eng means tenantId db (db.insertCiphertext c)

theorem SoundDatabase.step (hkeeps : KeepsMeaning eng means) {tenantId : ℤ} {db db' : Database}
    (hdb : SoundDatabase eng means tenantId db) (h : SoundStep eng means tenantId db db') :
    SoundDatabase eng means tenantId db' := by
  cases h with
  | cycle w hw c => exact hdb.cycle hkeeps hw c
  | insertComputation c hc => exact hdb.insertComputation hc
  | insertCiphertext c hc => exact hdb.insertCiphertext hc

/-- In every order of cycles and insertions the database stays sound. -/
theorem SoundDatabase.steps (hkeeps : KeepsMeaning eng means) {tenantId : ℤ} {db db' : Database}
    (hdb : SoundDatabase eng means tenantId db)
    (h : Relation.ReflTransGen (SoundStep eng means tenantId) db db') :
    SoundDatabase eng means tenantId db' := by
  induction h with
  | refl => exact hdb
  | tail _ hstep ih => exact ih.step hkeeps hstep

end Fhevm.Worker
