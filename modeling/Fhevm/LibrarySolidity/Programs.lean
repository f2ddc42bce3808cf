import Fhevm.Foundation.System
import Fhevm.Host.HostChain
import Fhevm.LibrarySolidity.Functions

/-!
# Programs that call the library

A contract calls functions of the library on its variables, in any order, within a transaction. It
copies and deletes variables, and gets handles from elsewhere; other contracts run in between. The
program is compared with one on numbers: every variable holds the zero handle or a handle of its type
that the contract may use, whose clear text is the number.

## Main definitions

* `program` — the statements of a contract as one system.
* `valuesAfter` — the same statements on numbers.
* `Admissible`, `OperandsInitialized` — what programs rely on.
* `ProgramSound` — how a program and its numbers are related.
-/

namespace Fhevm.LibrarySolidity

open Foundation Host

/-! ## Statements -/

/-- A variable of an encrypted type. -/
structure Variable where
  type : TypeName
  name : Nat
deriving DecidableEq, Repr

inductive Operand
  | encrypted (v : Variable)
  | clear (type : ClearType) (word : Bytes32) (fits : word.toNat < 2 ^ type.bits)

def Operand.type : Operand → ParamType
  | .encrypted v => .encrypted v.type
  | .clear type _ _ => .clear type

inductive Statement
  /-- The result is assigned to a variable of the return type. -/
  | call (function : FunctionName) (operands : List Operand) (target : Nat)
  | copy (source : Variable) (target : Nat)
  | delete (target : Variable)
  /-- A handle of a caller, of a mapping or of an input. -/
  | receive (target : Variable) (handle : Bytes32)
  /-- Calls of other contracts, and of the access control list. -/
  | others (host : HostState)

/-- Variables that were not assigned hold the zero handle. A revert ends the program. -/
structure ProgramState where
  library : LibraryState
  store : Variable → Bytes32
  reverted : Option HostError

variable (E : Execution)

/-- The function with the name and with parameters of the types of the operands. -/
def resolve (function : FunctionName) (operands : List Operand) : Option LibFunction :=
  (library E).find? fun f => f.name = function ∧ f.params = operands.map Operand.type

def Operand.word (store : Variable → Bytes32) : Operand → Bytes32
  | .encrypted v => store v
  | .clear _ word _ => word

/-- The arguments of a call by position. -/
def arguments (operands : List Operand) (store : Variable → Bytes32) (i : Nat) : Bytes32 :=
  (operands[i]?.map (Operand.word store)).getD 0

def ProgramState.assign (s : ProgramState) (v : Variable) (handle : Bytes32) : ProgramState :=
  { s with store := Function.update s.store v handle }

/-- The transaction of a contract, on a host in any state. -/
def program (host : HostState) : System ProgramState Statement where
  init := ⟨⟨host, []⟩, fun _ => 0, none⟩
  step s statement := do
    guard (s.reverted = none)
    match statement with
    | .call function operands target =>
      let f ← resolve E function operands
      match f.body (arguments operands s.store) s.library with
      | .ok (handle, library) =>
        return { s with library := library }.assign ⟨f.returnType, target⟩ handle
      | .error e => return { s with reverted := some e }
    | .copy source target => return s.assign ⟨source.type, target⟩ (s.store source)
    | .delete target => return s.assign target 0
    | .receive target handle => return s.assign target handle
    | .others host => return { s with library := { s.library with host := host } }

/-! ## Numbers -/

def Operand.value (values : Variable → Nat) : Operand → Nat
  | .encrypted v => values v
  | .clear _ word _ => word.toNat

def argumentValues (operands : List Operand) (values : Variable → Nat) (i : Nat) : Nat :=
  (operands[i]?.map (Operand.value values)).getD 0

/-- A statement on numbers. -/
def Statement.apply (clear : ClearTexts) (values : Variable → Nat) : Statement → Variable → Nat
  | .call function operands target =>
    match resolve E function operands with
    | some f => Function.update values ⟨f.returnType, target⟩
        (meaning function (operands.map Operand.type) (argumentValues operands values))
    | none => values
  | .copy source target => Function.update values ⟨source.type, target⟩ (values source)
  | .delete target => Function.update values target 0
  | .receive target handle =>
    Function.update values target (if handle = 0 then 0 else clear.text handle)
  | .others _ => values

/-- The numbers after statements, newest first. -/
def valuesAfter (clear : ClearTexts) : List Statement → Variable → Nat
  | [] => fun _ => 0
  | statement :: past => statement.apply E clear (valuesAfter clear past)

/-! ## What programs rely on -/

/-- Handles from elsewhere are of the type of their variable and the contract may use them; and no
other call takes the permission for a variable away. -/
def Admissible (s : ProgramState) : Statement → Prop
  | .receive target handle => handle = 0 ∨ typeOf handle = some target.type.fheType ∧
      isAllowed E.deployment handle E.context.sender s.library.host.acl = true
  | .others host => ∀ v, s.store v = 0 ∨
      isAllowed E.deployment (s.store v) E.context.sender host.acl = true
  | _ => True

/-- Operands are initialized where the library does not look. -/
def OperandsInitialized (s : ProgramState) : Statement → Prop
  | .call function operands _ => readsUnchecked function (operands.map Operand.type) = true →
      isInitialized (arguments operands s.store 0) = true
  | _ => True

/-- No permission of the contract for a handle of the program is in the slot that counts the
permissions. -/
structure SlotsFreeIn (past : List Statement) : Prop where
  computed : SlotsFree E
  received : ∀ target handle, .receive target handle ∈ past → handle ≠ 0 → HasSlot E handle

/-- How a program and its numbers are related. -/
structure ProgramSound (clear : ClearTexts) (past : List Statement) (s : ProgramState) : Prop where
  /-- A program reverts only where the executor refuses an operation for its price or because of a
  pause, or where it divides by zero. -/
  reverted : ∀ e, s.reverted = some e → ∃ function operands target before,
    past = .call function operands target :: before ∧
      Permitted function (argumentValues operands (valuesAfter E clear before)) e
  /-- Variables hold handles of their types that the contract may use. -/
  typed : ∀ v, s.store v = 0 ∨ typeOf (s.store v) = some v.type.fheType ∧
    isAllowed E.deployment (s.store v) E.context.sender s.library.host.acl = true
  /-- The clear texts are the numbers. -/
  values : s.reverted = none → ∀ v,
    (if s.store v = 0 then 0 else clear.text (s.store v)) = valuesAfter E clear past v

/-! ## One statement -/

section Steps

variable {E} {clear : ClearTexts} {past : List Statement} {s s' : ProgramState}

/-- Every variable stands for its number. -/
def Represents (E : Execution) (clear : ClearTexts) (library : LibraryState)
    (store : Variable → Bytes32) (values : Variable → Nat) : Prop :=
  ∀ v, Argument E clear library (.encrypted v.type) (store v) (values v)

theorem Represents.update {library : LibraryState} {store : Variable → Bytes32}
    {values : Variable → Nat} (h : Represents E clear library store values) {v : Variable}
    {handle : Bytes32} {value : Nat} (hnew : Argument E clear library (.encrypted v.type) handle value) :
    Represents E clear library (Function.update store v handle)
      (Function.update values v value) := by
  intro v'
  by_cases heq : v' = v
  · subst heq
    rw [Function.update_self, Function.update_self]
    exact hnew
  · rw [Function.update_of_ne heq, Function.update_of_ne heq]
    exact h v'

theorem resolve_eq_some {function : FunctionName} {operands : List Operand} {f : LibFunction}
    (h : resolve E function operands = some f) :
    f ∈ library E ∧ f.name = function ∧ f.params = operands.map Operand.type := by
  have hfound := List.find?_some (h : (library E).find? _ = some f)
  exact ⟨List.mem_of_find?_eq_some h, of_decide_eq_true hfound⟩

/-- The arguments of a call stand for the values of the operands. -/
theorem arguments_represent {library : LibraryState} {store : Variable → Bytes32}
    {values : Variable → Nat} (h : Represents E clear library store values)
    {operands : List Operand} {i : Nat} {p : ParamType}
    (hp : (operands.map Operand.type)[i]? = some p) :
    Argument E clear library p (arguments operands store i)
      (argumentValues operands values i) := by
  rw [List.getElem?_map, Option.map_eq_some_iff] at hp
  obtain ⟨operand, hoperand, rfl⟩ := hp
  simp only [arguments, argumentValues, hoperand, Option.map_some, Option.getD_some]
  cases operand with
  | encrypted v => exact h v
  | clear type word fits => exact ⟨rfl, fits⟩

/-- A call of a function of the library. -/
theorem call_post (hslots : SlotsFree E) {function : FunctionName} {operands : List Operand}
    {target : Nat} {f : LibFunction} (hf : resolve E function operands = some f)
    {library : LibraryState} {store : Variable → Bytes32} {values : Variable → Nat}
    (h : Represents E clear library store values)
    (hchecked : readsUnchecked function (operands.map Operand.type) = true →
      isInitialized (arguments operands store 0) = true) :
    Post (fun r => Represents E clear r.2 (Function.update store ⟨f.returnType, target⟩ r.1)
        (Statement.apply E clear values (.call function operands target)))
      (Permitted function (argumentValues operands values))
      (f.body (arguments operands store) library) := by
  obtain ⟨hmem, hname, hparams⟩ := resolve_eq_some hf
  have hsound : f.Sound E clear := library_sound hslots hmem
  have hsound := hsound library
    (arguments operands store) (argumentValues operands values)
  rw [hname, hparams] at hsound
  apply (hsound (fun i p hp => arguments_represent h hp) hchecked).imp
  intro r hr
  have hkept : Represents E clear r.2 store values := fun v => (h v).mono hr.keeps
  simp only [Statement.apply, hf]
  exact hkept.update (.inr hr.holds)

/-- The invariant of programs: variables stand for numbers, which are those of the statements as long
as nothing was reverted. -/
structure ProgramInvariant (E : Execution) (clear : ClearTexts) (past : List Statement)
    (s : ProgramState) : Prop where
  represents : ∃ values, Represents E clear s.library s.store values ∧
    (s.reverted = none → values = valuesAfter E clear past)
  reverted : ∀ e, s.reverted = some e → ∃ function operands target before,
    past = .call function operands target :: before ∧
      Permitted function (argumentValues operands (valuesAfter E clear before)) e

theorem ProgramInvariant.of_represents (hreverted : s.reverted = none)
    (h : Represents E clear s.library s.store (valuesAfter E clear past)) :
    ProgramInvariant E clear past s where
  represents := ⟨_, h, fun _ => rfl⟩
  reverted e he := by
    rw [hreverted] at he
    cases he

/-- A statement of a program that was not reverted. -/
theorem programInvariant_step {statement : Statement} (hslots : SlotsFreeIn E (statement :: past))
    (hreverted : s.reverted = none)
    (h : Represents E clear s.library s.store (valuesAfter E clear past))
    (hadmissible : Admissible E s statement) (hinitialized : OperandsInitialized s statement)
    {host : HostState} (hstep : (program E host).step s statement = some s') :
    ProgramInvariant E clear (statement :: past) s' := by
  simp only [program, Option.bind_eq_bind, Option.bind_eq_some_iff, Option.guard_eq_some',
    Option.pure_def] at hstep
  obtain ⟨-, -, hstep⟩ := hstep
  cases statement with
  | call function operands target =>
    simp only [Option.bind_eq_some_iff] at hstep
    obtain ⟨f, hf, hstep⟩ := hstep
    have hpost : Post _ _ (f.body (arguments operands s.store) s.library) :=
      @call_post E clear hslots.computed function operands target f hf _ _ _ h hinitialized
    split at hstep
    · rename_i handle library hbody
      obtain rfl := Option.some.inj hstep
      exact .of_represents hreverted (hpost.of_ok hbody)
    · rename_i e hbody
      obtain rfl := Option.some.inj hstep
      refine ⟨⟨_, h, nofun⟩, ?_⟩
      rintro e' he'
      obtain rfl := Option.some.inj he'
      exact ⟨function, operands, target, past, rfl, hpost.of_error hbody⟩
  | copy source target =>
    obtain rfl := Option.some.inj hstep
    exact .of_represents hreverted (h.update (h source))
  | delete target =>
    obtain rfl := Option.some.inj hstep
    exact .of_represents hreverted (h.update (.inl ⟨rfl, rfl⟩))
  | receive target handle =>
    obtain rfl := Option.some.inj hstep
    refine .of_represents hreverted (h.update ?_)
    by_cases hzero : handle = 0
    · rw [if_pos hzero]
      exact .inl ⟨hzero, rfl⟩
    · rw [if_neg hzero]
      obtain ⟨htype, hallowed⟩ := hadmissible.resolve_left hzero
      have hslot := hslots.received target handle List.mem_cons_self hzero
      exact .inr ⟨hzero, htype, hallowed, hslot, fun _ => rfl⟩
  | others host =>
    obtain rfl := Option.some.inj hstep
    refine .of_represents hreverted ?_
    intro v
    obtain hzero | hholds := h v
    · exact .inl hzero
    · have hallowed := (hadmissible v).resolve_left hholds.initialized
      exact .inr ⟨hholds.initialized, hholds.type, hallowed, hholds.slot, hholds.value⟩

end Steps

/-! ## Programs -/

section Runs

variable {E : Execution} {clear : ClearTexts} {past : List Statement} {s : ProgramState}
  {host : HostState}

theorem SlotsFreeIn.of_cons {statement : Statement} (h : SlotsFreeIn E (statement :: past)) :
    SlotsFreeIn E past :=
  ⟨h.computed, fun target handle hmem => h.received target handle (List.mem_cons_of_mem _ hmem)⟩

theorem programInvariant_run
    (h : (program E host).Run (fun s i => Admissible E s i ∧ OperandsInitialized s i) past s)
    (hslots : SlotsFreeIn E past) : ProgramInvariant E clear past s := by
  induction h with
  | start => exact .of_represents rfl fun v => .inl ⟨rfl, rfl⟩
  | @step past statement s s' hrun hallowed hstep ih =>
    obtain ⟨values, hvalues, heq⟩ := (ih hslots.of_cons).represents
    have hreverted : s.reverted = none := by
      simp only [program, Option.bind_eq_bind, Option.bind_eq_some_iff,
        Option.guard_eq_some'] at hstep
      exact hstep.choose_spec.1
    obtain rfl := heq hreverted
    exact programInvariant_step hslots hreverted hvalues hallowed.1 hallowed.2 hstep

/-- A program whose operands are initialized where the library does not look computes what its
statements do on numbers, and reverts only for the reasons that are named. -/
theorem program_sound
    (h : (program E host).Run (fun s i => Admissible E s i ∧ OperandsInitialized s i) past s)
    (hslots : SlotsFreeIn E past) (hclear : Evaluated clear s.library) :
    ProgramSound E clear past s := by
  have hinvariant : ProgramInvariant E clear past s := programInvariant_run h hslots
  obtain ⟨values, hvalues, heq⟩ := hinvariant.represents
  refine ⟨hinvariant.reverted, fun v => ?_, fun hreverted v => ?_⟩
  · obtain ⟨hzero, -⟩ | hholds := hvalues v
    · exact .inl hzero
    · exact .inr ⟨hholds.type, hholds.allowed⟩
  · rw [← heq hreverted]
    obtain ⟨hzero, hvalue⟩ | hholds := hvalues v
    · rw [if_pos hzero, hvalue]
    · rw [if_neg hholds.initialized, hholds.value hclear]

end Runs

/-! ## Two transactions -/

def Statement.isCall : Statement → Bool
  | .call _ _ _ => true
  | _ => false

theorem admissible_of_isCall {E : Execution} {s : ProgramState} {statement : Statement}
    (h : statement.isCall = true) : Admissible E s statement := by
  cases statement with
  | call function operands target => trivial
  | _ => cases h

/-- Clear texts by a table, and zero for other handles. -/
def clearTextsOf (table : List (Bytes32 × Nat)) : ClearTexts where
  text handle := (table.lookup handle).getD 0 % 2 ^ resultBits handle
  lt _ _ ht := resultBits_eq ht ▸ Nat.mod_lt _ (Nat.two_pow_pos _)

/-- The hash is odd, hence no slot is that of the length of the list. -/
def sampleExecution : Execution where
  deployment := ⟨fun bytes => multiplicativeHash bytes ||| 1, 1, 2, 8009⟩
  signatures := ⟨id, fun _ _ => none⟩
  context := sampleContext 10

theorem sampleExecution_hasSlot (handle : Bytes32) : HasSlot sampleExecution handle := by
  intro hzero
  have hbit := congrArg (BitVec.getLsbD · 0) hzero
  simp [permissionKey, sampleExecution] at hbit

theorem sampleExecution_slots {past : List Statement} : SlotsFreeIn sampleExecution past where
  computed _ _ := sampleExecution_hasSlot _
  received _ handle _ _ := sampleExecution_hasSlot handle

instance (s : ProgramState) : DecidablePred (OperandsInitialized s)
  | .call _ _ _ => inferInstanceAs (Decidable (_ → _))
  | .copy _ _ | .delete _ | .receive _ _ | .others _ => inferInstanceAs (Decidable True)

/-- `a = asEuint8(5); c = add(a, b)`, where `b` is an `euint16` that was not assigned. -/
def sampleStatements : List Statement :=
  [.call (.operator .add) [.encrypted ⟨.fhe .uint8, 0⟩, .encrypted ⟨.fhe .uint16, 1⟩] 2,
    .call (.asE (.fhe .uint8)) [.clear (.uint 8) 5 (by decide)] 0]

/-- `c = not(b)`, where `b` is an `ebool` that was not assigned. -/
def uncheckedStatements : List Statement := [.call (.operator .not) [.encrypted ⟨.fhe .bool, 1⟩] 2]

/-- The clear texts that a coprocessor computes, which takes the events from the oldest to the
newest one. -/
def textsOf (events : List TfheEvent) : List (Bytes32 × Nat) :=
  events.foldr (fun event table =>
    (event.result, (event.clearText fun handle => (table.lookup handle).getD 0).getD 0) :: table) []

def sampleEnd : Option ProgramState :=
  (program sampleExecution sampleConfig.init).replay
    (fun s i => i.isCall = true ∧ OperandsInitialized s i) sampleStatements

/-- The clear texts of the first transaction. -/
def sampleTexts : ClearTexts :=
  clearTextsOf ((sampleEnd.map fun s => textsOf s.library.events).getD [])

/-- The clear text of the result, as far as it is known, is that of the table. -/
def evaluatesBool (clear : ClearTexts) (event : TfheEvent) : Bool :=
  match event.clearText clear.text with
  | some clearText => clear.text event.result == clearText
  | none => true

theorem evaluated_of_all {clear : ClearTexts} {library : LibraryState}
    (h : library.events.all (evaluatesBool clear) = true) : Evaluated clear library := by
  intro event hevent clearText htext
  have hevent := List.all_eq_true.mp h event hevent
  simpa [evaluatesBool, htext] using hevent

/-- The first transaction computes 5. -/
theorem program_sound_sample : ∃ s,
    (program sampleExecution sampleConfig.init).Run
      (fun s i => Admissible sampleExecution s i ∧ OperandsInitialized s i) sampleStatements s ∧
    Evaluated sampleTexts s.library ∧
    valuesAfter sampleExecution sampleTexts sampleStatements ⟨.fhe .uint16, 2⟩ = 5 ∧
    ProgramSound sampleExecution sampleTexts sampleStatements s := by
  have hreplay : sampleEnd.map (fun s => s.library.events.all (evaluatesBool sampleTexts)) =
      some true := by decide +kernel
  obtain ⟨s, hs, hevents⟩ := Option.map_eq_some_iff.mp hreplay
  have hrun : (program sampleExecution sampleConfig.init).Run
      (fun s i => Admissible sampleExecution s i ∧ OperandsInitialized s i) sampleStatements s :=
    (System.run_of_replay hs).mono fun _ _ h => ⟨admissible_of_isCall h.1, h.2⟩
  have hevaluated := evaluated_of_all hevents
  have hvalue : valuesAfter sampleExecution sampleTexts sampleStatements ⟨.fhe .uint16, 2⟩ = 5 := by
    decide +kernel
  exact ⟨s, hrun, hevaluated, hvalue, program_sound hrun sampleExecution_slots hevaluated⟩

/-- The second transaction reverts because the contract is not allowed to use the zero handle. -/
theorem program_not_sound : ¬ ∀ (E : Execution) (host : HostState) (clear : ClearTexts)
    (past : List Statement) (s : ProgramState), (program E host).Run (Admissible E) past s →
      SlotsFreeIn E past → Evaluated clear s.library → ProgramSound E clear past s := by
  intro hall
  have hreplay : ((program sampleExecution sampleConfig.init).replay (fun _ i => i.isCall = true)
      uncheckedStatements).map (fun s => (s.reverted, s.library.events.isEmpty)) =
        some (some (.aclNotAllowed 0 10), true) := by decide +kernel
  obtain ⟨s, hs, hend⟩ := Option.map_eq_some_iff.mp hreplay
  obtain ⟨hreverted, hempty⟩ := Prod.mk.inj hend
  have hrun : (program sampleExecution sampleConfig.init).Run (Admissible sampleExecution)
      uncheckedStatements s := (System.run_of_replay hs).mono fun _ _ h => admissible_of_isCall h
  have hevaluated : Evaluated (clearTextsOf []) s.library := by
    rw [Evaluated, List.isEmpty_iff.mp hempty]
    exact nofun
  obtain ⟨_, _, _, _, heq, hpermitted⟩ :=
    (hall _ _ _ _ s hrun sampleExecution_slots hevaluated).reverted _ hreverted
  obtain hrefusal | ⟨hdivision, -⟩ := hpermitted
  · exact absurd hrefusal (by decide)
  · cases hdivision

end Fhevm.LibrarySolidity
