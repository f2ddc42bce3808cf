import Fhevm.Worker.SortComputations

/-!
# Sorted batches

A batch of valid computations is sorted exactly when its outputs are distinct, scalars stand where
they may, and no computation depends on itself. The passes then take all computations, each behind
the ones that it depends on.

## Main definitions

* `ValidComputation`, `ScalarsAllowed`, `DependsOn` — computations of a batch.
* `Ordered`, `Sorting` — what the passes keep.
* `sortComputationsByDependencies_spec` — when a batch is sorted, and how.
-/

namespace Fhevm.Worker

open Foundation

/-! ## Computations of a batch -/

def Input.bytes : Input → Handle
  | .inputHandle handle => handle
  | .scalar bytes => bytes

def ValidHandle (h : Handle) : Prop := 1 ≤ h.length ∧ h.length ≤ 256

def ValidInputs (inputs : List (Option Input)) : Prop :=
  ∀ i ∈ inputs, ∃ input : Input, i = some input ∧ ValidHandle input.bytes

structure ValidComputation (c : AsyncComputation) : Prop where
  operation : (SupportedFheOperations.tryFrom c.operation).isSome
  output : ValidHandle c.outputHandle
  inputs : ValidInputs c.inputs

/-- Only the second operand may be a scalar, unless the operation takes more of them. -/
def ScalarsAllowed (fheOp : SupportedFheOperations) (depIdx : ℕ) (inputs : List (Option Input)) :
    Prop :=
  ∀ j sc, inputs[j]? = some (some (.scalar sc)) →
    depIdx + j = 1 ∨ fheOp.doesHaveMoreThanOneScalar = true

/-- A computation of the batch reads the output of another one. -/
def DependsOn (input : List AsyncComputation) (p c : AsyncComputation) : Prop :=
  p ∈ input ∧ c ∈ input ∧ p.outputHandle ∈ c.inputHandles

/-! ## The checks -/

section Checks

variable {handles handles' : HashMap Handle ℕ} {idx : ℕ}

@[simp] theorem checkValidCiphertextHandle_eq_ok {h : Handle} {u : Unit} :
    checkValidCiphertextHandle h = .ok u ↔ ValidHandle h := by
  unfold checkValidCiphertextHandle ValidHandle
  split_ifs with hlong hempty
  · simp only [false_iff]
    omega
  · simp [hempty]
  · have hpos : h.length ≠ 0 := fun hzero => hempty (List.length_eq_zero_iff.mp hzero)
    simp only [true_iff]
    omega

/-- All output handles are found, if they are distinct. -/
theorem outputHandles_eq_ok {input : List AsyncComputation}
    (hvalid : ∀ c ∈ input, ValidHandle c.outputHandle)
    (h : outputHandles idx handles input = .ok handles') :
    (input.map AsyncComputation.outputHandle).Nodup ∧
      (∀ c ∈ input, c.outputHandle ∉ handles.keys) ∧
      ∀ k, k ∈ handles'.keys ↔ k ∈ handles.keys ∨ k ∈ input.map AsyncComputation.outputHandle := by
  induction input generalizing idx handles with
  | nil =>
    obtain rfl := Except.ok.inj h
    simp
  | cons c input ih =>
    simp only [outputHandles, bind_eq_ok, require_eq_ok, checkValidCiphertextHandle_eq_ok] at h
    obtain ⟨-, -, -, hnew, h⟩ := h
    obtain ⟨hnodup, hfresh, hkeys⟩ := ih (fun c hc => hvalid c (List.mem_cons_of_mem _ hc)) h
    have hnew : c.outputHandle ∉ handles.keys := by
      rw [← HashMap.get?_eq_none]
      simpa using hnew
    refine ⟨?_, ?_, fun k => ?_⟩
    · rw [List.map_cons, List.nodup_cons]
      refine ⟨fun hmem => ?_, hnodup⟩
      obtain ⟨d, hd, heq⟩ := List.mem_map.mp hmem
      exact hfresh d hd (HashMap.mem_keys_insert.mpr (.inl heq))
    · intro d hd
      rcases List.mem_cons.mp hd with rfl | hd
      · exact hnew
      · exact fun hmem => hfresh d hd (HashMap.mem_keys_insert.mpr (.inr hmem))
    · rw [hkeys, HashMap.mem_keys_insert, List.map_cons, List.mem_cons]
      tauto

theorem exists_outputHandles {input : List AsyncComputation}
    (hvalid : ∀ c ∈ input, ValidHandle c.outputHandle)
    (hnodup : (input.map AsyncComputation.outputHandle).Nodup)
    (hfresh : ∀ c ∈ input, c.outputHandle ∉ handles.keys) :
    ∃ handles', outputHandles idx handles input = .ok handles' := by
  induction input generalizing idx handles with
  | nil => exact ⟨handles, rfl⟩
  | cons c input ih =>
    rw [List.map_cons, List.nodup_cons] at hnodup
    obtain ⟨handles', h⟩ := @ih (handles.insert c.outputHandle idx) (idx + 1)
      (fun c hc => hvalid c (List.mem_cons_of_mem _ hc)) hnodup.2 fun d hd hmem => by
        rcases HashMap.mem_keys_insert.mp hmem with heq | hmem
        · exact hnodup.1 (List.mem_map.mpr ⟨d, hd, heq⟩)
        · exact hfresh d (List.mem_cons_of_mem _ hd) hmem
    refine ⟨handles', ?_⟩
    have hnone := HashMap.get?_eq_none.mpr (hfresh c List.mem_cons_self)
    simp only [outputHandles, bind_eq_ok, require_eq_ok, checkValidCiphertextHandle_eq_ok]
    exact ⟨(), hvalid c List.mem_cons_self, (), by simp [hnone], h⟩

/-! ### Operands -/

def handlesOf (inputs : List (Option Input)) : List Handle :=
  inputs.filterMap fun
    | some (.inputHandle ih) => some ih
    | _ => none

theorem lawfulBEq_bytes : LawfulBEq (List UInt8) := inferInstance

attribute [local instance] lawfulBEq_bytes

variable (handles) in
/-- The handles among operands that no computation of the batch produces. -/
def notProduced (inputs : List (Option Input)) : Finset Handle :=
  (handlesOf inputs).toFinset.filter fun ih => ih ∉ handles.keys

theorem notProduced_append (inputs inputs' : List (Option Input)) :
    notProduced handles (inputs ++ inputs') =
      notProduced handles inputs ∪ notProduced handles inputs' := by
  simp [notProduced, handlesOf, Finset.filter_union]

variable {comp : AsyncComputation} {fheOp : SupportedFheOperations}

theorem scalarsAllowed_cons {depIdx : ℕ} {i : Option Input} {inputs : List (Option Input)} :
    ScalarsAllowed fheOp depIdx (i :: inputs) ↔
      (∀ sc, i = some (.scalar sc) → depIdx = 1 ∨ fheOp.doesHaveMoreThanOneScalar = true) ∧
        ScalarsAllowed fheOp (depIdx + 1) inputs := by
  constructor
  · intro h
    refine ⟨fun sc hi => h 0 sc (by simp [hi]), fun j sc hj => ?_⟩
    exact (h (j + 1) sc (by simpa using hj)).imp_left fun heq => by omega
  · rintro ⟨hhead, htail⟩ j sc hj
    cases j with
    | zero => exact hhead sc (by simpa using hj)
    | succ j =>
      exact (htail j sc (by simpa using hj)).imp_left fun heq => by omega

theorem scanInput_ok_iff {depIdx : ℕ} {deps : List ℕ} {db db' : Finset Handle} {input : Input}
    (hvalid : ValidHandle input.bytes) :
    (∃ deps', scanInput handles idx comp fheOp depIdx deps db (some input) = .ok (deps', db')) ↔
      comp.outputHandle ∉ handlesOf [some input] ∧
        (∀ sc, some input = some (.scalar sc) →
          depIdx = 1 ∨ fheOp.doesHaveMoreThanOneScalar = true) ∧
        db' = db ∪ notProduced handles [some input] := by
  cases input with
  | inputHandle ih =>
    have hvalid : ValidHandle ih := hvalid
    have hown : comp.outputHandle ∉ handlesOf [some (.inputHandle ih)] ↔
        ih ≠ comp.outputHandle := by
      simpa [handlesOf] using ne_comm
    have hscalar : ∀ sc, some (Input.inputHandle ih) = some (.scalar sc) →
        depIdx = 1 ∨ fheOp.doesHaveMoreThanOneScalar = true := by simp
    rw [hown, and_iff_right hscalar]
    simp only [scanInput, bind_eq_ok, checkValidCiphertextHandle_eq_ok, require_eq_ok]
    cases hget : handles.get? ih with
    | none =>
      have hkey := HashMap.get?_eq_none.mp hget
      have hnew : notProduced handles [some (.inputHandle ih)] = {ih} := by
        simp [notProduced, handlesOf, Finset.filter_singleton, hkey]
      simp [hvalid, hnew, Finset.union_comm db, @eq_comm _ db']
    | some dep =>
      have hkey := HashMap.get?_isSome.mp (by simp [hget] : (handles.get? ih).isSome)
      have hnew : notProduced handles [some (.inputHandle ih)] = ∅ := by
        simp [notProduced, handlesOf, Finset.filter_singleton, hkey]
      simp [hvalid, hnew, @eq_comm _ db']
  | scalar sc =>
    have hvalid : ValidHandle sc := hvalid
    have hnew : notProduced handles [some (.scalar sc)] = ∅ := rfl
    simp [scanInput, hvalid, handlesOf, hnew, @eq_comm _ db']

/-- The operands of a computation are scanned when it does not read its own output and its scalars
stand where they may. -/
theorem scanInputs_ok_iff {depIdx : ℕ} {deps : List ℕ} {db db' : Finset Handle}
    {inputs : List (Option Input)} (hvalid : ValidInputs inputs) :
    (∃ deps', scanInputs handles idx comp fheOp depIdx deps db inputs = .ok (deps', db')) ↔
      comp.outputHandle ∉ handlesOf inputs ∧ ScalarsAllowed fheOp depIdx inputs ∧
        db' = db ∪ notProduced handles inputs := by
  induction inputs generalizing depIdx deps db with
  | nil =>
    have hscalars : ScalarsAllowed fheOp depIdx [] := fun j sc hj => by simp at hj
    simp [scanInputs, handlesOf, hscalars, notProduced, @eq_comm _ db]
  | cons i inputs ih =>
    obtain ⟨input, rfl, hbytes⟩ := hvalid i List.mem_cons_self
    have hrest : ValidInputs inputs := fun i hi => hvalid i (List.mem_cons_of_mem _ hi)
    have hhandles : handlesOf (some input :: inputs) =
        handlesOf [some input] ++ handlesOf inputs := by
      simp [handlesOf, List.filterMap_cons]
      split <;> simp
    have hsplit : (∃ deps', scanInputs handles idx comp fheOp depIdx deps db
          (some input :: inputs) = .ok (deps', db')) ↔
        ∃ db₁, (∃ deps₁, scanInput handles idx comp fheOp depIdx deps db (some input) =
          .ok (deps₁, db₁)) ∧ comp.outputHandle ∉ handlesOf inputs ∧
            ScalarsAllowed fheOp (depIdx + 1) inputs ∧ db' = db₁ ∪ notProduced handles inputs := by
      simp only [scanInputs, bind_eq_ok, Prod.exists]
      constructor
      · rintro ⟨deps', deps₁, db₁, hfirst, hrest'⟩
        exact ⟨db₁, ⟨deps₁, hfirst⟩, (ih hrest).mp ⟨deps', hrest'⟩⟩
      · rintro ⟨db₁, ⟨deps₁, hfirst⟩, hrest'⟩
        obtain ⟨deps', hrest'⟩ := (ih hrest).mpr hrest'
        exact ⟨deps', deps₁, db₁, hfirst, hrest'⟩
    have hnew : notProduced handles (some input :: inputs) =
        notProduced handles [some input] ∪ notProduced handles inputs := notProduced_append [_] inputs
    rw [hsplit, scalarsAllowed_cons, hhandles, List.mem_append, not_or, hnew, ← Finset.union_assoc]
    simp only [scanInput_ok_iff hbytes]
    constructor
    · rintro ⟨db₁, ⟨hown, hscalar, rfl⟩, howns, hscalars, rfl⟩
      exact ⟨⟨hown, howns⟩, ⟨hscalar, hscalars⟩, rfl⟩
    · rintro ⟨⟨hown, howns⟩, ⟨hscalar, hscalars⟩, rfl⟩
      exact ⟨_, ⟨hown, hscalar, rfl⟩, howns, hscalars, rfl⟩

/-! ### Computations -/

/-- What is checked of a computation in the second loop. -/
structure OperandsAllowed (c : AsyncComputation) : Prop where
  ownOutput : c.outputHandle ∉ c.inputHandles
  scalars : ∀ fheOp, SupportedFheOperations.tryFrom c.operation = some fheOp →
    ScalarsAllowed fheOp 0 c.inputs

theorem operandsAllowed_iff {c : AsyncComputation}
    (hop : SupportedFheOperations.tryFrom c.operation = some fheOp) :
    OperandsAllowed c ↔ c.outputHandle ∉ handlesOf c.inputs ∧ ScalarsAllowed fheOp 0 c.inputs := by
  constructor
  · exact fun h => ⟨h.ownOutput, h.scalars fheOp hop⟩
  · rintro ⟨hown, hscalars⟩
    refine ⟨hown, fun fheOp' hop' => ?_⟩
    obtain rfl := Option.some.inj (hop.symm.trans hop')
    exact hscalars

/-- A batch is scanned when this is so of every computation, and the computations come back. -/
theorem scanComputations_ok_iff {db db' : Finset Handle} {input : List AsyncComputation}
    (hvalid : ∀ c ∈ input, ValidComputation c) :
    (∃ deps, scanComputations handles idx db input = .ok (deps, db')) ↔
      (∀ c ∈ input, OperandsAllowed c) ∧
        db' = db ∪ notProduced handles (input.flatMap AsyncComputation.inputs) := by
  induction input generalizing idx db with
  | nil => simp [scanComputations, notProduced, handlesOf, @eq_comm _ db]
  | cons c input ih =>
    obtain ⟨fheOp, hop⟩ := Option.isSome_iff_exists.mp (hvalid c List.mem_cons_self).operation
    have hrest : ∀ c ∈ input, ValidComputation c := fun c hc => hvalid c (List.mem_cons_of_mem _ hc)
    have hparse : parseOperation c.operation = .ok fheOp := by simp [parseOperation, hop]
    have hsplit : (∃ deps, scanComputations handles idx db (c :: input) = .ok (deps, db')) ↔
        ∃ db₁, (∃ deps₁, scanInputs handles idx c fheOp 0 [] db c.inputs = .ok (deps₁, db₁)) ∧
          (∀ c ∈ input, OperandsAllowed c) ∧
            db' = db₁ ∪ notProduced handles (input.flatMap AsyncComputation.inputs) := by
      simp only [scanComputations, hparse, bind_eq_ok, Except.ok.injEq, exists_eq_left', pure_eq_ok,
        Prod.exists, Prod.mk.injEq]
      constructor
      · rintro ⟨deps, deps₁, db₁, hfirst, rest, db₂, hrest', -, rfl⟩
        exact ⟨db₁, ⟨deps₁, hfirst⟩, (ih hrest).mp ⟨rest, hrest'⟩⟩
      · rintro ⟨db₁, ⟨deps₁, hfirst⟩, hrest'⟩
        obtain ⟨rest, hrest'⟩ := (ih hrest).mpr hrest'
        exact ⟨_, deps₁, db₁, hfirst, rest, db', hrest', rfl, rfl⟩
    rw [hsplit, List.forall_mem_cons, operandsAllowed_iff hop, List.flatMap_cons, notProduced_append,
      ← Finset.union_assoc]
    simp only [scanInputs_ok_iff (hvalid c List.mem_cons_self).inputs]
    constructor
    · rintro ⟨db₁, ⟨hown, hscalars, rfl⟩, hall, rfl⟩
      exact ⟨⟨⟨hown, hscalars⟩, hall⟩, rfl⟩
    · rintro ⟨⟨⟨hown, hscalars⟩, hall⟩, rfl⟩
      exact ⟨_, ⟨hown, hscalars, rfl⟩, hall, rfl⟩

theorem map_fst_scanComputations {db db' : Finset Handle} {input : List AsyncComputation}
    {deps : List (AsyncComputation × List ℕ)}
    (h : scanComputations handles idx db input = .ok (deps, db')) : deps.map Prod.fst = input := by
  induction input generalizing idx db deps with
  | nil =>
    obtain ⟨rfl, -⟩ := Prod.mk.inj (Except.ok.inj h)
    rfl
  | cons c input ih =>
    simp only [scanComputations, bind_eq_ok, pure_eq_ok, Prod.mk.injEq] at h
    obtain ⟨_, _, _, _, rest, hrest, rfl, rfl⟩ := h
    rw [List.map_cons, ih hrest]

end Checks

/-! ## The passes -/

/-- Each computation comes behind those that produce what it reads, apart from the database. -/
def Ordered (db : Finset Handle) (res : List AsyncComputation) : Prop :=
  ∀ done c later, res = done ++ c :: later → ∀ ih ∈ c.inputHandles,
    ih ∈ db ∨ ih ∈ done.map AsyncComputation.outputHandle

/-- A batch in the middle of the passes. -/
structure Sorting (db : Finset Handle) (input res : List AsyncComputation)
    (completed : Finset Handle) (deps : List (AsyncComputation × List ℕ)) : Prop where
  completed_iff : ∀ h, h ∈ completed ↔ h ∈ res.map AsyncComputation.outputHandle
  ordered : Ordered db res
  perm : (res ++ deps.map Prod.fst).Perm input

section Passes

variable {db completed : Finset Handle} {input res res' : List AsyncComputation}
  {deps : List (AsyncComputation × List ℕ)} {c : AsyncComputation}

theorem Ordered.append_singleton (h : Ordered db res)
    (hready : ∀ ih ∈ c.inputHandles, ih ∈ db ∨ ih ∈ res.map AsyncComputation.outputHandle) :
    Ordered db (res ++ [c]) := by
  intro done d later heq ih hih
  rcases List.eq_nil_or_concat later with rfl | ⟨later, last, rfl⟩
  · obtain ⟨rfl, hlast⟩ := List.append_inj' heq rfl
    obtain rfl : c = d := by simpa using hlast
    exact hready ih hih
  · rw [List.concat_eq_append, ← List.cons_append, ← List.append_assoc] at heq
    exact h done d later (List.append_inj' heq rfl).1 ih hih

/-- A computation that misses nothing can be taken. -/
theorem Pass.missingHandle_eq_none :
    Pass.missingHandle db completed c = none ↔
      ∀ ih ∈ c.inputHandles, ih ∈ db ∨ ih ∈ completed := by
  simp [Pass.missingHandle, List.find?_eq_none]
  grind

theorem Sorting.run {p : Pass} (h : Sorting db input p.res p.simulationCompletedOutputs
      (p.newComputationDependencies ++ deps)) :
    Sorting db input (p.run db deps).res (p.run db deps).simulationCompletedOutputs
      (p.run db deps).newComputationDependencies := by
  induction deps generalizing p with
  | nil => simpa [Pass.run] using h
  | cons dep deps ih =>
    rw [Pass.run_cons]
    refine ih ?_
    unfold Pass.next
    split
    · next hmissing =>
      have hready := Pass.missingHandle_eq_none.mp hmissing
      refine ⟨fun k => ?_, h.ordered.append_singleton fun k hk => ?_, ?_⟩
      · simp [h.completed_iff, or_comm]
      · exact (hready k hk).imp_right (h.completed_iff k).mp
      · refine List.Perm.trans ?_ h.perm
        simp only [List.map_append, List.map_cons, List.append_assoc, List.singleton_append]
        exact (List.perm_middle.symm).append_left _
    · exact ⟨h.completed_iff, h.ordered, by simpa using h.perm⟩

/-- A pass without progress finds that every computation misses a handle. -/
theorem Pass.stuck {p : Pass} (h : (p.run db deps).progressMadeInIteration = false) :
    p.progressMadeInIteration = false ∧
      ∀ dep ∈ deps, missingHandle db p.simulationCompletedOutputs dep.1 ≠ none := by
  induction deps generalizing p with
  | nil => exact ⟨h, by simp⟩
  | cons dep deps ih =>
    rw [run_cons] at h
    obtain ⟨hprogress, hdeps⟩ := ih h
    unfold next at hprogress hdeps
    split at hprogress <;> rename_i hmissing <;> simp only [hmissing] at hdeps
    · cases hprogress
    · refine ⟨hprogress, List.forall_mem_cons.mpr ⟨by simp [hmissing], hdeps⟩⟩

theorem Sorting.of_passes (h : Sorting db input res completed deps)
    (hpasses : passes db res completed deps = .ok res') : res'.Perm input ∧ Ordered db res' := by
  induction deps using (measure List.length).wf.induction generalizing res completed with
  | _ deps ih =>
    have hrun := @Sorting.run db input deps (.start res completed) h
    rw [passes] at hpasses
    split_ifs at hpasses with hprogress hdone
    · obtain rfl := Except.ok.inj hpasses
      rw [hdone] at hrun
      exact ⟨by simpa using hrun.perm, hrun.ordered⟩
    · exact ih _ (Pass.length_lt_of_progress db hprogress) hrun hpasses

/-- Without a circle, every pass takes a computation. -/
theorem Sorting.exists_passes (hacyclic : Acyclic (DependsOn input))
    (hproduced : ∀ c ∈ input, ∀ ih ∈ c.inputHandles,
      ih ∈ db ∨ ∃ p ∈ input, p.outputHandle = ih)
    (h : Sorting db input res completed deps) (hne : deps ≠ []) :
    ∃ res', passes db res completed deps = .ok res' := by
  induction deps using (measure List.length).wf.induction generalizing res completed with
  | _ deps ih =>
    have hrun := @Sorting.run db input deps (.start res completed) h
    rw [passes]
    split_ifs with hprogress hdone
    · exact ⟨_, rfl⟩
    · exact ih _ (Pass.length_lt_of_progress db hprogress) hrun hdone
    · -- the first computation of what is left could have been taken
      obtain ⟨-, hstuck⟩ := Pass.stuck (Bool.eq_false_iff.mpr hprogress)
      obtain ⟨c, hc, hfirst⟩ := hacyclic.exists_minimal (List.map_eq_nil_iff.not.mpr hne)
      obtain ⟨dep, hdep, rfl⟩ := List.mem_map.mp hc
      have hmem : ∀ d ∈ deps.map Prod.fst, d ∈ input := fun d hd =>
        h.perm.mem_iff.mp (List.mem_append_right _ hd)
      refine absurd (Pass.missingHandle_eq_none.mpr fun ih hih => ?_) (hstuck dep hdep)
      refine (hproduced dep.1 (hmem _ hc) ih hih).imp_right ?_
      rintro ⟨p, hp, rfl⟩
      rcases List.mem_append.mp (h.perm.mem_iff.mpr hp) with hres | hleft
      · exact (h.completed_iff _).mpr (List.mem_map_of_mem hres)
      · exact absurd ⟨hp, hmem _ hc, hih⟩ (hfirst p hleft)

end Passes

/-! ## Sorted batches -/

/-- Every computation comes behind those that produce its input handles. -/
def ProducersFirst (input res : List AsyncComputation) : Prop :=
  ∀ done c later, res = done ++ c :: later → ∀ p ∈ input, p.outputHandle ∈ c.inputHandles → p ∈ done

section Batch

variable {input res : List AsyncComputation} {db : Finset Handle}

theorem Ordered.producersFirst (h : Ordered db res) (hperm : res.Perm input)
    (hnodup : (input.map AsyncComputation.outputHandle).Nodup)
    (hdb : ∀ p ∈ input, p.outputHandle ∉ db) : ProducersFirst input res := by
  rintro done c later rfl p hp hread
  obtain ⟨q, hq, heq⟩ := List.mem_map.mp
    ((h done c later rfl p.outputHandle hread).resolve_left (hdb p hp))
  have hqmem : q ∈ input := hperm.mem_iff.mp (List.mem_append_left _ hq)
  rwa [← List.inj_on_of_nodup_map hnodup hqmem hp heq]

/-- An order with producers first leaves no circle. -/
theorem ProducersFirst.acyclic (h : ProducersFirst input res) (hperm : res.Perm input) :
    Acyclic (DependsOn input) := by
  refine .of_rank (fun c => res.idxOf c) fun p c ⟨hp, hc, hread⟩ => ?_
  have hlt : res.idxOf c < res.length := List.idxOf_lt_length_of_mem (hperm.mem_iff.mpr hc)
  have hsplit : res = res.take (res.idxOf c) ++ c :: res.drop (res.idxOf c + 1) := by
    conv_lhs => rw [← List.take_append_drop (res.idxOf c) res, List.drop_eq_getElem_cons hlt]
    simp
  have hmem := h _ _ _ hsplit p hp hread
  exact (List.mem_take_iff_idxOf_lt (hperm.mem_iff.mpr hp)).mp hmem

theorem mem_inputHandles_of_handlesOf {h : Handle} :
    h ∈ handlesOf (input.flatMap AsyncComputation.inputs) ↔ ∃ c ∈ input, h ∈ c.inputHandles := by
  rw [handlesOf, List.filterMap_flatMap]
  exact List.mem_flatMap

/-- The checks of a batch, with the handles that it does not produce. -/
theorem scanned_iff {handles : HashMap Handle ℕ} (hvalid : ∀ c ∈ input, ValidComputation c)
    (hhandles : outputHandles 0 .empty input = .ok handles) :
    (∃ deps, scanComputations handles 0 ∅ input = .ok (deps, db)) ↔
      (∀ c ∈ input, OperandsAllowed c) ∧ ∀ h, h ∈ db ↔
        (∃ c ∈ input, h ∈ c.inputHandles) ∧ ∀ p ∈ input, p.outputHandle ≠ h := by
  obtain ⟨-, -, hkeys⟩ := outputHandles_eq_ok (fun c hc => (hvalid c hc).output) hhandles
  have hproduced : ∀ h, h ∉ handles.keys ↔ ∀ p ∈ input, p.outputHandle ≠ h := by
    intro h
    rw [hkeys]
    simp [HashMap.keys]
  rw [scanComputations_ok_iff hvalid, Finset.ext_iff]
  simp [notProduced, mem_inputHandles_of_handlesOf, hproduced]

theorem sorting_start {deps : List (AsyncComputation × List ℕ)}
    (hdeps : deps.map Prod.fst = input) (le : AsyncComputation × List ℕ →
      AsyncComputation × List ℕ → Bool) : Sorting db input [] ∅ (deps.mergeSort le) where
  completed_iff := by simp
  ordered := by simp [Ordered]
  perm := by
    rw [List.nil_append, ← hdeps]
    exact (List.mergeSort_perm deps le).map _

/-- What a batch that was sorted has passed. -/
theorem sorted_of_eq_ok (hvalid : ∀ c ∈ input, ValidComputation c)
    (h : sortComputationsByDependencies input = .ok (res, db)) :
    (input.map AsyncComputation.outputHandle).Nodup ∧ (∀ c ∈ input, OperandsAllowed c) ∧
      res.Perm input ∧ ProducersFirst input res ∧ ∀ h, h ∈ db ↔
        (∃ c ∈ input, h ∈ c.inputHandles) ∧ ∀ p ∈ input, p.outputHandle ≠ h := by
  simp only [sortComputationsByDependencies, bind_eq_ok, pure_eq_ok, Prod.mk.injEq] at h
  obtain ⟨handles, hhandles, ⟨deps, _⟩, hscan, _, hpasses, rfl, rfl⟩ := h
  obtain ⟨hnodup, -, -⟩ := outputHandles_eq_ok (fun c hc => (hvalid c hc).output) hhandles
  obtain ⟨hallowed, hdb⟩ := (scanned_iff hvalid hhandles).mp ⟨deps, hscan⟩
  obtain ⟨hperm, hordered⟩ :=
    (sorting_start (map_fst_scanComputations hscan) _).of_passes hpasses
  refine ⟨hnodup, hallowed, hperm, hordered.producersFirst hperm hnodup ?_, hdb⟩
  exact fun p hp hmem => ((hdb _).mp hmem).2 p hp rfl

/-- A batch is sorted when its outputs are distinct, its operands are allowed and no computation
depends on itself. All computations are sorted then, producers first. -/
theorem sortComputationsByDependencies_spec (hne : input ≠ [])
    (hvalid : ∀ c ∈ input, ValidComputation c) :
    ((∃ out, sortComputationsByDependencies input = .ok out) ↔
      (input.map AsyncComputation.outputHandle).Nodup ∧ (∀ c ∈ input, OperandsAllowed c) ∧
        Acyclic (DependsOn input)) ∧
    ∀ res db, sortComputationsByDependencies input = .ok (res, db) →
      res.Perm input ∧ ProducersFirst input res ∧ ∀ h, h ∈ db ↔
        (∃ c ∈ input, h ∈ c.inputHandles) ∧ ∀ p ∈ input, p.outputHandle ≠ h := by
  refine ⟨⟨?_, ?_⟩, fun res db h => (sorted_of_eq_ok hvalid h).2.2⟩
  · rintro ⟨⟨res, db⟩, h⟩
    obtain ⟨hnodup, hallowed, hperm, hproducers, -⟩ := sorted_of_eq_ok hvalid h
    exact ⟨hnodup, hallowed, hproducers.acyclic hperm⟩
  · rintro ⟨hnodup, hallowed, hacyclic⟩
    obtain ⟨handles, hhandles⟩ := @exists_outputHandles .empty 0 input
      (fun c hc => (hvalid c hc).output) hnodup (by simp [HashMap.keys])
    obtain ⟨deps, hscan⟩ := (scanComputations_ok_iff hvalid).mpr ⟨hallowed, rfl⟩
    obtain ⟨-, hdb⟩ := (scanned_iff hvalid hhandles).mp ⟨deps, hscan⟩
    have hdeps := map_fst_scanComputations hscan
    have hleft : deps.mergeSort (fun a b => decide (a.2 ≤ b.2)) ≠ [] := by
      intro hnil
      have hperm := List.mergeSort_perm deps fun a b => decide (a.2 ≤ b.2)
      rw [hnil, List.nil_perm] at hperm
      exact hne (by rw [← hdeps, hperm, List.map_nil])
    have hproduced : ∀ c ∈ input, ∀ ih ∈ c.inputHandles,
        ih ∈ ∅ ∪ notProduced handles (input.flatMap AsyncComputation.inputs) ∨
          ∃ p ∈ input, p.outputHandle = ih := by
      intro c hc ih hih
      by_cases hproduced : ∃ p ∈ input, p.outputHandle = ih
      · exact .inr hproduced
      · exact .inl ((hdb ih).mpr ⟨⟨c, hc, hih⟩, fun p hp heq => hproduced ⟨p, hp, heq⟩⟩)
    obtain ⟨res, hpasses⟩ := (sorting_start hdeps _).exists_passes hacyclic hproduced hleft
    exact ⟨_, bind_eq_ok.mpr ⟨handles, hhandles, bind_eq_ok.mpr ⟨_, hscan, bind_eq_ok.mpr
      ⟨res, hpasses, rfl⟩⟩⟩⟩

end Batch

/-- The sum of a ciphertext of the database and a scalar, behind a sum that reads it. -/
def sampleSums : List AsyncComputation :=
  [⟨0, [2], [some (.inputHandle [1]), some (.inputHandle [1])]⟩,
    ⟨0, [1], [some (.inputHandle [9]), some (.scalar [7])]⟩]

theorem valid_sampleSums : ∀ c ∈ sampleSums, ValidComputation c := by
  have hoperations : ∀ c ∈ sampleSums, (SupportedFheOperations.tryFrom c.operation).isSome := by
    decide
  have houtputs : ∀ c ∈ sampleSums, 1 ≤ c.outputHandle.length ∧ c.outputHandle.length ≤ 256 := by
    decide
  refine fun c hc => ⟨hoperations c hc, houtputs c hc, ?_⟩
  simp only [sampleSums, List.mem_cons, List.not_mem_nil, or_false] at hc
  rcases hc with rfl | rfl <;> simp [ValidInputs, ValidHandle, Input.bytes]

theorem sortComputationsByDependencies_sampleSums :
    ((∃ out, sortComputationsByDependencies sampleSums = .ok out) ↔
      (sampleSums.map AsyncComputation.outputHandle).Nodup ∧ (∀ c ∈ sampleSums, OperandsAllowed c) ∧
        Acyclic (DependsOn sampleSums)) ∧
    ∀ res db, sortComputationsByDependencies sampleSums = .ok (res, db) →
      res.Perm sampleSums ∧ ProducersFirst sampleSums res ∧ ∀ h, h ∈ db ↔
        (∃ c ∈ sampleSums, h ∈ c.inputHandles) ∧ ∀ p ∈ sampleSums, p.outputHandle ≠ h :=
  sortComputationsByDependencies_spec (by decide) valid_sampleSums

end Fhevm.Worker
