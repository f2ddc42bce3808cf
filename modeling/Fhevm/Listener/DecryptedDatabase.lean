import Fhevm.Listener.DecryptedRuns
import Fhevm.Worker.Meaning

/-!
# Every ciphertext of the database decrypts to its clear text

The listener inserts the computations of the events of the host contracts, other services insert
the verified inputs, and workers compute results from what they find. Whatever comes first, and
however the workers schedule, all ciphertexts that the database has decrypt to the clear texts that
the events tell.

## Main definitions

* `RunsLibrary` — an engine that evaluates with the library and keeps what ciphertexts decrypt to.
* `CoprocessorStep` — what happens to the database of a coprocessor.
* `ciphertexts_decrypt` — the main result.
-/

namespace Fhevm.Listener

open Foundation Host Worker Scheduler

variable {R S ε : Type} {lib : TfheLibrary R} {decrypt : FheTypes → R → ℕ}
  {value : BinaryOperator → FheTypes → ℕ → ℕ → ℕ} {eng : FheEngine R S ε} {clear : ClearTexts}

/-! ## The engine -/

/-- Results are those of the library. Compression and re-randomisation keep what a ciphertext
decrypts to. -/
structure RunsLibrary (eng : FheEngine R S ε) (lib : TfheLibrary R)
    (decrypt : FheTypes → R → ℕ) : Prop where
  perform {operation : ℤ} {cts : List (SupportedFheCiphertexts R)}
    {ct : SupportedFheCiphertexts R} :
      eng.performFheOperation operation cts = .ok ct →
        performFheOperation lib operation cts = .ok ct
  decompress (t : FheTypes) (c : R) : ∃ c',
    eng.decompress (eng.compress (.enc t c)).1 (eng.compress (.enc t c)).2 = .ok (.enc t c') ∧
      decrypt t c' = decrypt t c
  reRandomize {t : FheTypes} {c c' : R} {seed : S} :
    eng.reRandomize t c seed = .ok c' → decrypt t c' = decrypt t c

theorem RunsLibrary.keepsMeaning (h : RunsLibrary eng lib decrypt) :
    KeepsMeaning eng (StandsFor decrypt clear) where
  compress := by
    rintro handle ct ⟨word, t, t', c, heq, ht, hnum, rfl, hdecrypt⟩
    obtain ⟨c', hok, hsame⟩ := h.decompress t' c
    exact ⟨_, hok, word, t, t', c', heq, ht, hnum, rfl, hsame.trans hdecrypt⟩
  reRandomise := by
    rintro handle ct ct' seed ⟨word, t, t', c, heq, ht, hnum, rfl, hdecrypt⟩ hok
    obtain ⟨c', hc', rfl⟩ := (map_eq_ok).mp hok
    exact ⟨word, t, t', c', heq, ht, hnum, rfl, (h.reRandomize hc').trans hdecrypt⟩

/-! ## The rows of events -/

section Rows

variable {K : HostConfig} {calls : List (HostCall K.deployment)} {tenantId : ℤ} {now : ℕ}

/-- The operation of the row of an event takes ciphertexts of the operands to one of the result. -/
theorem soundRow_event (hlib : Homomorphic lib decrypt value) (heng : RunsLibrary eng lib decrypt)
    {log : LogTfhe} (hemits : EmitsEvent K calls log.event) (hfits : log.event.Fits)
    (hrespects : clear.Respects hlib.randomTexts log.event) {c : Worker.Computation}
    (hrow : insertTfheEvent tenantId now log = some c) :
    SoundRow eng (StandsFor decrypt clear) c := by
  obtain ⟨event, transactionHash, allowed⟩ := log
  obtain ⟨ctx, call, past, result, s', -, hok⟩ := hemits
  cases hinput : call.isInput with
  | true =>
    cases call with
    | verifyInput inputHandle userAddress inputProof inputType =>
      obtain ⟨-, -, rfl, -⟩ := verifyInput_ok hok
      cases hrow
    | _ => cases hinput
  | false =>
    obtain ⟨htyped, rfl, -⟩ := executorCall_ok hinput hok
    obtain ⟨type, htype, hhandle⟩ := result_eq_handleOf hinput hok
    have hresult : typeOf result = some type := hhandle ▸ typeOf_handleOf _ _ _
    obtain ⟨c', hrow', -, -, htoOp⟩ := toOp_event R hinput htyped
    obtain rfl : c' = c := Option.some.inj (hrow'.symm.trans hrow)
    intro op hop
    obtain rfl := Except.ok.inj (htoOp.symm.trans hop)
    refine ⟨(length_rowInputs R _ call).trans (by norm_num), fheOpOf_ne hinput, ?_⟩
    intro cts ct hcts hperform
    obtain ⟨t, r, hlibrary, hnum, hdecrypt⟩ :=
      performs_event hlib hinput htyped htype hresult hfits hrespects hcts
    obtain rfl := Except.ok.inj ((heng.perform hperform).symm.trans hlibrary)
    exact ⟨result, type, t, r, rfl, hresult, hnum, rfl, hdecrypt⟩

end Rows

/-! ## Runs of a coprocessor -/

/-- A worker commits a cycle, the listener inserts the computation of an event, or another service
inserts a ciphertext of an input. Other tenants have any rows. -/
inductive CoprocessorStep (K : HostConfig) (calls : List (HostCall K.deployment))
    (eng : FheEngine R S ε) (decrypt : FheTypes → R → ℕ) (given : ClearTexts) (tenantId : ℤ) :
    Database → Database → Prop
  | cycle {db : Database} (w : WorkerSetup R S ε) (hw : w.engine tenantId = eng)
      (c : WorkerCycle w db) : CoprocessorStep K calls eng decrypt given tenantId db c.database
  | event {db : Database} (log : LogTfhe) (now : ℕ) (c : Worker.Computation)
      (hlog : EmitsEvent K calls log.event) (hrow : insertTfheEvent tenantId now log = some c) :
      CoprocessorStep K calls eng decrypt given tenantId db (db.insertComputation c)
  | input {db : Database} (handle : Bytes32) (c : Ciphertext)
      (hhandle : c.handle = wordBytes handle) (hindex : indexHandle handle ≠ 0xff)
      (hc : MeantRow eng (StandsFor decrypt given) c) :
      CoprocessorStep K calls eng decrypt given tenantId db (db.insertCiphertext c)
  | otherComputation {db : Database} (c : Worker.Computation) (hc : c.tenantId ≠ tenantId) :
      CoprocessorStep K calls eng decrypt given tenantId db (db.insertComputation c)
  | otherCiphertext {db : Database} (c : Ciphertext) (hc : c.tenantId ≠ tenantId) :
      CoprocessorStep K calls eng decrypt given tenantId db (db.insertCiphertext c)

/-- The computations of a block are inserted one after the other. -/
theorem steps_insertComputations {K : HostConfig} {calls : List (HostCall K.deployment)}
    {given : ClearTexts} {tenantId : ℤ} (now : ℕ) {logs : List LogTfhe}
    (hlogs : ∀ log ∈ logs, EmitsEvent K calls log.event) (db : Database) :
    Relation.ReflTransGen (CoprocessorStep K calls eng decrypt given tenantId) db
      ((logs.filterMap (insertTfheEvent tenantId now)).foldl Database.insertComputation db) := by
  induction logs generalizing db with
  | nil => exact .refl
  | cons log logs ih =>
    rw [List.forall_mem_cons] at hlogs
    cases hrow : insertTfheEvent tenantId now log with
    | none =>
      rw [List.filterMap_cons_none hrow]
      exact ih hlogs.2 db
    | some c =>
      rw [List.filterMap_cons_some hrow]
      exact .head (.event log now c hlogs.1 hrow) (ih hlogs.2 _)

/-- A ciphertext of an input stands for the clear text that its owner gave it. -/
theorem meantRow_of_given {given : ClearTexts} {c : Ciphertext}
    (h : MeantRow eng (StandsFor decrypt given) c) {handle : Bytes32}
    (hhandle : c.handle = wordBytes handle) (hsame : clear.text handle = given.text handle) :
    MeantRow eng (StandsFor decrypt clear) c := by
  obtain ⟨ct, hct, word, t, t', r, heq, ht, hnum, hval, hdecrypt⟩ := h
  obtain rfl : handle = word := wordBytes_injective (hhandle.symm.trans heq)
  exact ⟨ct, hct, handle, t, t', r, heq, ht, hnum, hval, hdecrypt.trans hsame.symm⟩

/-- The handles of a run have clear texts, those of the inputs as given, such that every event
tells the clear text of its result, and in every order of insertions, cycles and schedules all
ciphertexts of the database decrypt to the clear texts. -/
theorem ciphertexts_decrypt (hlib : Homomorphic lib decrypt value)
    (heng : RunsLibrary eng lib decrypt) (K : HostConfig) (calls : List (HostCall K.deployment))
    (hslots : SlotsApart K calls ∅) (hapart : DescriptionsApart K calls)
    (hfits : ∀ event, EmitsEvent K calls event → event.Fits) (given : ClearTexts) (tenantId : ℤ) :
    ∃ clear : ClearTexts,
      (∀ handle, indexHandle handle ≠ 0xff → clear.text handle = given.text handle) ∧
      (∀ event, EmitsEvent K calls event → clear.Evaluates event) ∧
      ∀ (start db : Database), start.ciphertexts.rows = [] → start.computations.rows = [] →
        Relation.ReflTransGen (CoprocessorStep K calls eng decrypt given tenantId) start db →
        ∀ row ∈ db.ciphertexts.rows, row.tenantId = tenantId →
          ∃ handle t c, row.handle = wordBytes handle ∧ t.num = (byteAt handle 30).toNat ∧
            eng.decompress row.ciphertextType row.ciphertext = .ok (.enc t c) ∧
            decrypt t c = clear.text handle := by
  obtain ⟨clear, hgiven, hrespects⟩ :=
    clearTexts_of_run hlib.randomTexts hslots hapart hfits given
  refine ⟨clear, hgiven, fun event hemits => (hrespects event hemits).evaluates, ?_⟩
  intro start db hciphertexts hcomputations hsteps row hrow htenant
  have hstep : ∀ {db db'}, CoprocessorStep K calls eng decrypt given tenantId db db' →
      SoundStep eng (StandsFor decrypt clear) tenantId db db' := by
    intro db db' h
    cases h with
    | cycle w hw c => exact .cycle w hw c
    | event log now c hlog hc =>
      exact .insertComputation c fun _ =>
        soundRow_event hlib heng hlog (hfits _ hlog) (hrespects _ hlog) hc
    | input handle c hhandle hindex hc =>
      exact .insertCiphertext c fun _ => meantRow_of_given hc hhandle (hgiven handle hindex)
    | otherComputation c hc => exact .insertComputation c fun h => absurd h hc
    | otherCiphertext c hc => exact .insertCiphertext c fun h => absurd h hc
  have hstart : SoundDatabase eng (StandsFor decrypt clear) tenantId start := by
    refine ⟨fun c hc => ?_, fun c hc => ?_⟩
    · rw [hcomputations] at hc
      cases hc
    · rw [hciphertexts] at hc
      cases hc
  have hsound := Relation.ReflTransGen.mono (fun _ _ => hstep) _ _ hsteps
  have hdb := hstart.steps heng.keepsMeaning hsound
  obtain ⟨ct, hct, handle, t, t', c, heq, ht, hnum, rfl, hdecrypt⟩ :=
    hdb.ciphertexts row hrow htenant
  refine ⟨handle, t', c, heq, hnum.trans ?_, hct, hdecrypt⟩
  rw [FheType.ofNat?_eq_some.mp ht]

/-! ### Clear numbers -/

/-- The engine that does not encrypt. A ciphertext is stored with the bytes of its number. -/
def exactEngine : FheEngine ℕ Unit FhevmError where
  performFheOperation operation cts :=
    (performFheOperation exactLibrary operation cts).mapError fun _ => .badInputs
  compress
    | .enc t c => (t.num, BigEndian.encode (t.bits / 8 + 1) (c % 2 ^ t.bits))
    | .scalar bytes => (200, bytes)
  decompress type bytes :=
    match FheTypes.ofNum type with
    | some t => .ok (.enc t (BigEndian.decode bytes))
    | none => .error (.unknownFheType type)
  unknownEnumValue := .unknownFheOperation
  nextSeed _ _ := .ok ()
  reRandomize _ c _ := .ok c

theorem runsLibrary_exactEngine : RunsLibrary exactEngine exactLibrary cutDecrypt where
  perform h := (mapError_eq_ok).mp h
  decompress t c := by
    refine ⟨c % 2 ^ t.bits, ?_, Nat.mod_mod _ _⟩
    have hnum : FheTypes.ofNum t.num = some t := by cases t <;> rfl
    have hlt : c % 2 ^ t.bits < 256 ^ (t.bits / 8 + 1) := by
      refine (Nat.mod_lt _ (Nat.two_pow_pos _)).trans_le ?_
      rw [show 256 = 2 ^ 8 from rfl, ← pow_mul]
      exact Nat.pow_le_pow_right two_pos (by omega)
    simp only [exactEngine, hnum, BigEndian.decode_encode, Nat.mod_eq_of_lt hlt]
  reRandomize h := by
    cases h
    rfl

def exactWorker : WorkerSetup ℕ Unit FhevmError where
  engine _ := exactEngine
  toposort := Toposort.kahn
  strategy := .maxParallelism
  workItemsBatchSize := 10
  isFhevmError _ := true

theorem no_computations : (([] : List Worker.Computation).map Worker.Computation.key).Nodup :=
  .nil

theorem no_ciphertexts : (([] : List Worker.Ciphertext).map Worker.Ciphertext.key).Nodup :=
  .nil

def emptyDatabase : Database := ⟨⟨[], no_computations⟩, ⟨[], no_ciphertexts⟩⟩

/-- The computations of the events of the run. -/
def negatingRows : List Worker.Computation := negatingLogs.filterMap (insertTfheEvent 1 0)

def negatingDatabase : Database := negatingRows.foldl Database.insertComputation emptyDatabase

/-- The ciphertext that the worker stores for the negation of 5. -/
def negatedRow : Ciphertext := ⟨1, wordBytes negatedHandle, [0, 251], 0, 2⟩

theorem exists_negatingCycle : ∃ c : WorkerCycle exactWorker negatingDatabase,
    c.database.ciphertexts.rows = [negatedRow] := by
  obtain ⟨r, hr, hcheck⟩ := exists_ok_of_check (x := cycleInOrder exactWorker 0 negatingDatabase)
    (P := fun r => (negatingDatabase.runStatements 0
      (r.2.flatMap (Upload.statements exactWorker.isFhevmError))).ciphertexts.rows = [negatedRow])
    (by decide +kernel)
  exact ⟨.inOrder hr, of_decide_eq_true hcheck⟩

/-- The negation of 5 that a worker stores decrypts to 251. -/
theorem negatedRow_decrypts : ∃ (c : WorkerCycle exactWorker negatingDatabase) (handle : Bytes32)
    (t : FheTypes) (n : ℕ), c.database.ciphertexts.rows = [negatedRow] ∧
      negatedRow.handle = wordBytes handle ∧
      exactEngine.decompress negatedRow.ciphertextType negatedRow.ciphertext = .ok (.enc t n) ∧
      cutDecrypt t n = 251 := by
  obtain ⟨c, hrows⟩ := exists_negatingCycle
  obtain ⟨clear, -, hclear, hdecrypt⟩ := ciphertexts_decrypt homomorphic_exactLibrary
    runsLibrary_exactEngine sampleConfig negatingRun slotsApart_negatingRun
    descriptionsApart_negatingRun fits_negatingRun zeroTexts 1
  have hsteps : Relation.ReflTransGen (CoprocessorStep sampleConfig negatingRun exactEngine
      cutDecrypt zeroTexts 1) emptyDatabase c.database :=
    (steps_insertComputations 0 emitsEvent_of_mem_negatingLogs emptyDatabase).tail
      (.cycle exactWorker rfl c)
  obtain ⟨handle, t, n, heq, -, hok, hn⟩ :=
    hdecrypt emptyDatabase c.database rfl rfl hsteps negatedRow (by simp [hrows]) rfl
  obtain rfl : negatedHandle = handle := wordBytes_injective heq
  exact ⟨c, negatedHandle, t, n, hrows, rfl, hok, hn.trans (text_negatedHandle hclear)⟩

end Fhevm.Listener
