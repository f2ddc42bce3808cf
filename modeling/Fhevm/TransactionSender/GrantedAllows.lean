import Fhevm.Gateway.Backed
import Fhevm.Gateway.Grants
import Fhevm.Listener.GrantedRows
import Fhevm.TransactionSender.RowEffects

/-!
# Permissions on the gateway come from the host chain

The listener of a coprocessor records the permissions that it reads, its sender reports them to the
gateway, and the gateway allows what enough coprocessors have reported. A block is read as soon as a
node shows it, and a report is never withdrawn. So what is allowed has been granted by the access
control list in a block of the host chain, which need not be canonical any more.

## Main definitions

* `Coprocessor`, `Network` — the coprocessors, the host chain and the gateway.
* `Network.step` — the steps of all of them, in any order.
* `Network.Granted` — a block of the host chain grants the permission.
* `allowed_only_granted` — only what is granted is allowed.
-/

namespace Fhevm.TransactionSender

open Foundation Contract Gateway Host Listener Worker

/-! ## The network -/

/-- A listener, a sender that reads the table which the listener writes, and the account that it
sends from. -/
structure Coprocessor where
  listener : ListenerConfig
  args : Args
  sender : SenderSetup
  txSender : Address
  /-- `Address::to_string`, which the sender reads back. -/
  addressToString : Address → String
  reads_back : ∀ a, sender.addressFromStr (addressToString a) = some a

/-- Coprocessors that read the events of one access control list. -/
structure Network (ι : Type) where
  world : World
  tip : BlockLogs
  contains_tip : world.Contains tip
  acl : Address
  coprocessor : ι → Coprocessor
  listens : ∀ c, (coprocessor c).listener.aclContractAddress = some acl
  gateway : GatewayChain
  owner : Address

/-- A row of the listener as the sender finds it before it has sent anything. -/
def Coprocessor.row (C : Coprocessor) (a : AllowedHandle) : AllowedHandleRow where
  tenantId := a.tenantId.toNat
  handle := a.handle
  accountAddress := (a.accountAddress.map C.addressToString).getD ""
  eventType :=
    match a.eventType with
    | .allowedAccount => 0
    | .allowedForDecryption => 1

structure CoprocessorState where
  system : ListenerSystem
  /-- The permissions that the listener has recorded, with the columns of the sender. -/
  allowedHandles : Table AllowedHandleRow.key
  /-- The tasks that have not ended. -/
  tasks : List (AllowedHandleRow × AllowCall)

/-- The calls that the gateway has been sent come newest first. -/
structure NetworkState (ι : Type) where
  coprocessors : ι → CoprocessorState
  calls : List (Address × GatewayCall)

inductive NetworkInput (ι : Type)
  /-- A step of the listener, or of the host chain as it shows itself to the listener. -/
  | listen (c : ι) (input : ListenerInput)
  /-- The sender picks rows and makes tasks of them. -/
  | execute (c : ι) (rows : List AllowedHandleRow)
  /-- The transaction of a task gets to the gateway. -/
  | send (c : ι) (task : ℕ)
  /-- A task ends. -/
  | finish (c : ι) (task : ℕ) (bookkeeping : Bookkeeping)
  /-- Anybody calls the gateway. -/
  | call (sender : Address) (call : GatewayCall)

namespace CoprocessorState

variable (C : Coprocessor) (s : CoprocessorState)

def listen (input : ListenerInput) : Option CoprocessorState :=
  (s.system.step C.listener C.args input).map fun system =>
    { s with
      system
      allowedHandles := s.allowedHandles.insertAll (system.db.allowedHandles.rows.map C.row) }

/-- A row that cannot be prepared ends the call before the tasks of the rows behind it. -/
def tasksOf (rows : List AllowedHandleRow) : List (AllowedHandleRow × AllowCall) :=
  (rows.takeWhile fun row => prepareAllow C.sender row ≠ .abort).filterMap fun row =>
    match prepareAllow C.sender row with
    | .request call => some (row, call)
    | _ => none

def execute (rows : List AllowedHandleRow) : CoprocessorState :=
  { s with tasks := s.tasks ++ tasksOf C rows }

def finish (task : ℕ) (bookkeeping : Bookkeeping) : Option CoprocessorState :=
  s.tasks[task]?.map fun (row, _) =>
    let operation := multichainACLOperation C.sender
    { s with
      allowedHandles := (operation.statement bookkeeping).run (operation.selects row.key)
        s.allowedHandles
      tasks := s.tasks.eraseIdx task }

end CoprocessorState

namespace Network

variable {ι : Type} [DecidableEq ι] (N : Network ι)

def init : NetworkState ι where
  coprocessors _ := ⟨.fresh N.tip, ⟨[], .nil⟩, []⟩
  calls := []

def set (s : NetworkState ι) (c : ι) (state : CoprocessorState) : NetworkState ι :=
  { s with coprocessors := Function.update s.coprocessors c state }

def step (s : NetworkState ι) : NetworkInput ι → Option (NetworkState ι)
  | .listen c input => ((s.coprocessors c).listen (N.coprocessor c) input).map (set s c)
  | .execute c rows => some (set s c ((s.coprocessors c).execute (N.coprocessor c) rows))
  | .send c task =>
    (s.coprocessors c).tasks[task]?.map fun (_, call) =>
      { s with calls := ((N.coprocessor c).txSender, .allow call) :: s.calls }
  | .finish c task bookkeeping =>
    ((s.coprocessors c).finish (N.coprocessor c) task bookkeeping).map (set s c)
  | .call sender call => some { s with calls := (sender, call) :: s.calls }

def system : System (NetworkState ι) (NetworkInput ι) := ⟨N.init, N.step⟩

/-- The account of a coprocessor that follows its code. -/
def Honest (a : Address) : Prop := ∃ c, (N.coprocessor c).txSender = a

/-- Nodes do not lie, the sender picks rows that are there, and the accounts of the coprocessors
report nothing else. -/
def Possible (s : NetworkState ι) : NetworkInput ι → Prop
  | .listen c input => Listener.Possible N.world (s.coprocessors c).system input
  | .execute c rows =>
    (multichainACLOperation (N.coprocessor c).sender).Picked (s.coprocessors c).allowedHandles rows
  | .call sender call => N.Honest sender → ∀ report, call ≠ .allow report
  | _ => True

/-- The state of the gateway. -/
def gatewayIn (s : NetworkState ι) : GatewayState := gatewayAfter N.gateway N.owner s.calls

/-! ## Grants -/

/-- The access control list has emitted the event of the permission in the block. -/
def GrantedIn (b : BlockLogs) : AllowTarget → Prop
  | .account ctHandle account =>
    ∃ caller tx, ⟨N.acl, .acl (.allowed caller account ctHandle), tx⟩ ∈ b.logs
  | .publicDecrypt ctHandle =>
    ∃ caller handlesList tx, ⟨N.acl, .acl (.allowedForDecryption caller handlesList), tx⟩ ∈ b.logs ∧
      ctHandle ∈ handlesList

/-- A block of the host chain, canonical or not, grants the permission. -/
def Granted (target : AllowTarget) : Prop := ∃ b, N.world.Contains b ∧ N.GrantedIn b target

/-- No other permission that is granted is counted under the same key. -/
def KeyApart (target : AllowTarget) : Prop :=
  ∀ target', N.Granted target' →
    target'.key N.gateway.toGatewayDeployment = target.key N.gateway.toGatewayDeployment →
      target' = target

/-! ## Reports of coprocessors are of what is granted -/

/-- What the sender requests for the row is granted. -/
def RowGranted (c : ι) (row : AllowedHandleRow) : Prop :=
  ∀ call, prepareAllow (N.coprocessor c).sender row = .request call → N.Granted call.target

structure CoprocessorGranted (c : ι) (s : CoprocessorState) : Prop where
  system : RowsGranted (N.coprocessor c).listener N.world s.system
  rows : ∀ row ∈ s.allowedHandles.rows, N.RowGranted c row
  tasks : ∀ task ∈ s.tasks, N.Granted task.2.target

structure AllGranted (s : NetworkState ι) : Prop where
  coprocessors : ∀ c, N.CoprocessorGranted c (s.coprocessors c)
  calls : ∀ a report, (a, .allow report) ∈ s.calls → N.Honest a → N.Granted report.target

end Network

section Rows

variable {ι : Type} {N : Network ι} {c : ι}

theorem tryIntoArray_wordBytes (x : Bytes32) : tryIntoArray (wordBytes x) = some x := by
  rw [tryIntoArray, if_pos (length_wordBytes x), ofNat_decode_wordBytes]

theorem prepareAllow_allowedHandle (S : SenderSetup) (e : Bookkeeping) (row : AllowedHandleRow) :
    prepareAllow S (e.allowedHandle row) = prepareAllow S row := by
  cases e <;> rfl

/-- What is requested for a row of a block is what the block grants. -/
theorem grantedIn_of_row {b : BlockLogs} {a : AllowedHandle} {call : AllowCall}
    (ha : a ∈ allowedHandleRows (N.coprocessor c).listener b)
    (h : prepareAllow (N.coprocessor c).sender ((N.coprocessor c).row a) = .request call) :
    N.GrantedIn b call.target := by
  obtain ⟨⟨event, tx⟩, hevent, ha⟩ := List.mem_flatMap.mp ha
  obtain ⟨log, hlog, hevent⟩ := List.mem_filterMap.mp hevent
  obtain ⟨event', hevent, heq⟩ := Option.map_eq_some_iff.mp hevent
  cases heq
  have hacl : log = ⟨N.acl, .acl event, log.transactionHash⟩ := by
    obtain ⟨address, data, transactionHash⟩ := log
    unfold aclEvent at hevent
    rw [N.listens c] at hevent
    split at hevent
    · next haddress =>
      obtain rfl : address = N.acl := by simpa using haddress
      cases data <;> cases hevent
      rfl
    · cases hevent
  rw [hacl] at hlog
  cases event with
  | allowed caller account handle =>
    obtain rfl := List.mem_singleton.mp ha
    have hcall : call = ⟨.account handle account, []⟩ := by
      simp only [prepareAllow, Coprocessor.row, AllowEvents.tryFrom, tryIntoArray_wordBytes,
        Option.map_some, Option.getD_some, (N.coprocessor c).reads_back, if_true] at h
      split at h <;> cases h
      rfl
    rw [hcall]
    exact ⟨caller, _, hlog⟩
  | allowedForDecryption caller handlesList =>
    obtain ⟨handle, hhandle, rfl⟩ := List.mem_map.mp ha
    have hcall : call = ⟨.publicDecrypt handle, []⟩ := by
      simp only [prepareAllow, Coprocessor.row, AllowEvents.tryFrom, tryIntoArray_wordBytes,
        one_ne_zero, if_true, if_false] at h
      split at h <;> cases h
      rfl
    rw [hcall]
    exact ⟨caller, handlesList, _, hlog, hhandle⟩
  | _ => cases ha

variable {s s' : CoprocessorState}

/-! ### Steps of a coprocessor -/

theorem granted_listen {input : ListenerInput} (hs : N.CoprocessorGranted c s)
    (hpossible : Listener.Possible N.world s.system input)
    (h : s.listen (N.coprocessor c) input = some s') : N.CoprocessorGranted c s' := by
  obtain ⟨system, hstep, rfl⟩ := Option.map_eq_some_iff.mp h
  have hsystem := rowsGranted_step hs.system hpossible hstep
  refine ⟨hsystem, fun row hrow => ?_, hs.tasks⟩
  obtain hold | hnew := Table.mem_insertAll hrow
  · exact hs.rows row hold
  · obtain ⟨a, ha, rfl⟩ := List.mem_map.mp hnew
    obtain ⟨b, hb, ha⟩ := hsystem.rows a ha
    exact fun call hcall => ⟨b, hb, grantedIn_of_row ha hcall⟩

theorem granted_execute {rows : List AllowedHandleRow} (hs : N.CoprocessorGranted c s)
    (hrows : ∀ row ∈ rows, row ∈ s.allowedHandles.rows) :
    N.CoprocessorGranted c (s.execute (N.coprocessor c) rows) := by
  refine ⟨hs.system, hs.rows, fun task htask => ?_⟩
  obtain hold | hnew := List.mem_append.mp htask
  · exact hs.tasks task hold
  · obtain ⟨row, hrow, htask⟩ := List.mem_filterMap.mp hnew
    split at htask
    · next call hcall =>
      cases htask
      exact hs.rows row (hrows row (List.takeWhile_subset _ hrow)) call hcall
    · cases htask

theorem granted_finish {task : ℕ} {bookkeeping : Bookkeeping} (hs : N.CoprocessorGranted c s)
    (h : s.finish (N.coprocessor c) task bookkeeping = some s') : N.CoprocessorGranted c s' := by
  obtain ⟨⟨row, call⟩, -, rfl⟩ := Option.map_eq_some_iff.mp h
  refine ⟨hs.system, ?_, fun task' htask' => hs.tasks task' (List.mem_of_mem_eraseIdx htask')⟩
  apply Table.forall_update hs.rows
  · intro row hrow call hcall
    rw [prepareAllow_allowedHandle] at hcall
    exact hrow call hcall
  · cases bookkeeping <;> exact fun _ => rfl

/-! ### Steps of the network -/

variable [DecidableEq ι] {n n' : NetworkState ι}

theorem granted_set (hn : N.AllGranted n) (hs : N.CoprocessorGranted c s) :
    N.AllGranted (Network.set n c s) := by
  refine ⟨fun c' => ?_, hn.calls⟩
  by_cases hc : c' = c
  · subst hc
    simpa [Network.set] using hs
  · simpa [Network.set, hc] using hn.coprocessors c'

/-- Every step keeps it that coprocessors only report what is granted. -/
theorem granted_step {input : NetworkInput ι} (hn : N.AllGranted n)
    (hpossible : N.Possible n input) (h : N.step n input = some n') : N.AllGranted n' := by
  cases input with
  | listen c input =>
    obtain ⟨s, hs, rfl⟩ := Option.map_eq_some_iff.mp h
    exact granted_set hn (granted_listen (hn.coprocessors c) hpossible hs)
  | execute c rows =>
    obtain rfl := Option.some.inj h
    refine granted_set hn (granted_execute (hn.coprocessors c) fun row hrow => ?_)
    exact (Table.get?_eq_some.mp (hpossible.get? row hrow)).1
  | send c task =>
    obtain ⟨⟨row, call⟩, htask, rfl⟩ := Option.map_eq_some_iff.mp h
    refine ⟨hn.coprocessors, fun a report hreport hhonest => ?_⟩
    obtain hhead | hlater := List.mem_cons.mp hreport
    · cases hhead
      exact (hn.coprocessors c).tasks _ (List.mem_of_getElem? htask)
    · exact hn.calls a report hlater hhonest
  | finish c task bookkeeping =>
    obtain ⟨s, hs, rfl⟩ := Option.map_eq_some_iff.mp h
    exact granted_set hn (granted_finish (hn.coprocessors c) hs)
  | call sender call =>
    obtain rfl := Option.some.inj h
    refine ⟨hn.coprocessors, fun a report hreport hhonest => ?_⟩
    obtain hhead | hlater := List.mem_cons.mp hreport
    · cases hhead
      exact absurd rfl (hpossible hhonest report)
    · exact hn.calls a report hlater hhonest

theorem granted_run {past : List (NetworkInput ι)} (h : N.system.Run N.Possible past n) :
    N.AllGranted n := by
  apply h.invariant
  · refine ⟨fun c => ⟨rowsGranted_fresh N.contains_tip, ?_, ?_⟩, ?_⟩
    · rintro _ ⟨⟩
    · rintro _ ⟨⟩
    · rintro _ _ ⟨⟩
  · exact fun past input n n' _ hn hpossible hstep => granted_step hn hpossible hstep

/-- A key that is allowed is that of a permission which is granted. -/
theorem granted_of_allowed {past : List (NetworkInput ι)} {key : Bytes32}
    (hrun : N.system.Run N.Possible past n)
    (hfew : FewDeviate N.gateway N.owner N.Honest n.calls)
    (h : (N.gatewayIn n).allows.isAllowed key = true) :
    ∃ target, N.Granted target ∧ target.key N.gateway.toGatewayDeployment = key := by
  obtain ⟨a, hhonest, report, before, hran, hkey, -⟩ := exists_honest_report hfew h
  exact ⟨report.target, (granted_run hrun).calls a report (hran.mem List.mem_cons_self) hhonest,
    hkey⟩

/-- While fewer coprocessors deviate than the threshold asks for, the gateway allows an account or
everybody to decrypt a handle only if the access control list has emitted the event of that
permission, in a block of the host chain that a reorganisation may have replaced. -/
theorem allowed_only_granted (N : Network ι) {past : List (NetworkInput ι)}
    (hrun : N.system.Run N.Possible past n)
    (hfew : FewDeviate N.gateway N.owner N.Honest n.calls) (ctHandle : Bytes32) :
    (∀ account, N.KeyApart (.account ctHandle account) →
      isAccountAllowed N.gateway.toGatewayDeployment (N.gatewayIn n).allows ctHandle account = true →
        N.Granted (.account ctHandle account)) ∧
    (N.KeyApart (.publicDecrypt ctHandle) →
      isPublicDecryptAllowed (N.gatewayIn n).allows ctHandle = true →
        N.Granted (.publicDecrypt ctHandle)) := by
  constructor
  · intro account hapart h
    obtain ⟨target, hgranted, hkey⟩ := granted_of_allowed hrun hfew h
    exact hapart target hgranted hkey ▸ hgranted
  · intro hapart h
    obtain ⟨target, hgranted, hkey⟩ := granted_of_allowed hrun hfew h
    exact hapart target hgranted hkey ▸ hgranted

end Rows

/-! ## A block that is replaced -/

/-- The reorganisation replaces no block that is so far below the tip. -/
def ReorgWithin (W : World) (depth : ℕ) (tip tip' : BlockLogs) : Prop :=
  ∀ a, W.tree.Ancestor a tip → a.summary.number + depth ≤ tip.summary.number →
    W.tree.Ancestor a tip'

/-- Reorganisations are within the bound of the listener. -/
def Network.ReorgsWithin {ι : Type} (N : Network ι) (n : NetworkState ι) : NetworkInput ι → Prop
  | .listen c (.chain tip) =>
    ReorgWithin N.world (N.coprocessor c).args.reorgMaximumDurationInBlocks
      (n.coprocessors c).system.tip tip
  | _ => True

section Samples

def rootBlock : BlockLogs := ⟨[], ⟨1, [1], [0]⟩⟩

/-- An account and everybody may decrypt a handle. -/
def orphan : BlockLogs where
  logs := [⟨0xac1, .acl (.allowed 8 7 (1 <<< 16)), [2]⟩,
    ⟨0xac1, .acl (.allowedForDecryption 8 [1 <<< 16]), [3]⟩]
  summary := ⟨2, [2], [1]⟩

def replacement : BlockLogs := ⟨[], ⟨2, [3], [1]⟩⟩

def forkedBlocks : List BlockLogs := [rootBlock, orphan, replacement]

def forkedWorld : World where
  block h := forkedBlocks.find? fun b => b.summary.hash = h
  hash_block h := by simpa using List.find?_some h
  number_parent := by
    intro h b p hb hp
    have hnumbers : ∀ b ∈ forkedBlocks, ∀ p ∈ forkedBlocks,
        p.summary.hash = b.summary.parentHash → p.summary.number + 1 = b.summary.number := by
      decide
    exact hnumbers b (List.mem_of_find?_eq_some hb) p (List.mem_of_find?_eq_some hp)
      (by simpa using List.find?_some hp)
  block_zero := by decide

/-- A node that streams the block which is replaced later. -/
def forkNode : Node where
  getBlockNumber := none
  getLogs _ _ := .error .other
  getBlockByNumber _ := none
  getBlock _ := none
  getLogsAtHash h := if h = [2] then some orphan.logs else none
  getCurrentBlock := none
  next := .header orphan.summary

theorem honest_forkNode (tip : BlockLogs) : Honest forkedWorld tip forkNode where
  getLogs := by rintro _ _ _ ⟨⟩
  getBlockByNumber := by rintro _ _ ⟨⟩
  getBlock := by rintro _ _ ⟨⟩
  getLogsAtHash := by
    intro h logs hlogs
    simp only [forkNode, Option.ite_none_right_eq_some, Option.some.injEq] at hlogs
    obtain ⟨rfl, rfl⟩ := hlogs
    exact ⟨orphan, by decide, rfl⟩
  getCurrentBlock := by rintro _ ⟨⟩
  next := by
    rintro _ ⟨⟩
    exact ⟨orphan, by decide, rfl⟩

def addressText : String := "0x0000000000000000000000000000000000000007"

def sampleCoprocessor : Coprocessor where
  listener := sampleListener
  args := sampleArgs
  sender :=
    { sampleSetup with
      addressFromStr := fun text =>
        if text = addressText then some 7 else some (BitVec.ofNat 160 text.length) }
  txSender := 30
  addressToString a := if a = 7 then addressText else String.ofList (List.replicate a.toNat 'x')
  reads_back := by
    intro a
    by_cases ha : a = 7
    · simp [ha]
    · have hother : String.ofList (List.replicate a.toNat 'x') ≠ addressText := by
        intro h
        have hmem : '0' ∈ (String.ofList (List.replicate a.toNat 'x')).toList := by
          rw [h]
          decide
        simp at hmem
      simp only [ha, if_false, hother, String.length_ofList, List.length_replicate,
        BitVec.ofNat_toNat, BitVec.setWidth_eq]

def sampleNetwork : Network Unit where
  world := forkedWorld
  tip := rootBlock
  contains_tip := by decide
  acl := 0xac1
  coprocessor _ := sampleCoprocessor
  listens _ := rfl
  gateway := sampleChain
  owner := 1

def sampleRows : List AllowedHandleRow :=
  [sampleCoprocessor.row ⟨1, wordBytes (1 <<< 16), some 7, .allowedAccount, [2]⟩,
    sampleCoprocessor.row ⟨1, wordBytes (1 <<< 16), none, .allowedForDecryption, [3]⟩]

/-- The coprocessor reads the block and reports its permissions, and then the block is replaced. -/
def sampleReports : List (NetworkInput Unit) :=
  [.listen () (.chain replacement), .send () 1, .send () 0, .execute () sampleRows,
    .listen () (.turn forkNode 1 0 0), .listen () (.turn forkNode 1 0 0),
    .listen () (.start (some 1) true), .listen () (.chain orphan),
    .call 1 (.config (.addHostChain 1)),
    .call 1 (.config (.initializeFromEmptyProxy ⟨0, 1, 1, 1, 1⟩ [⟨20, 50, ""⟩] [⟨30, 60, ""⟩]
      [⟨40, 70, ""⟩]))]

def sampleCalls : List (Address × GatewayCall) :=
  [(30, .allow ⟨.publicDecrypt (1 <<< 16), []⟩), (30, .allow ⟨.account (1 <<< 16) 7, []⟩),
    (1, .config (.addHostChain 1)),
    (1, .config (.initializeFromEmptyProxy ⟨0, 1, 1, 1, 1⟩ [⟨20, 50, ""⟩] [⟨30, 60, ""⟩]
      [⟨40, 70, ""⟩]))]

/-- What is checked of the inputs of the run while it is replayed. -/
def checkSample (n : NetworkState Unit) : NetworkInput Unit → Bool
  | .listen c (.chain tip) =>
    decide (forkedWorld.Contains tip) && decide ((n.coprocessors c).system.tip.summary.number < 50)
  | .execute c rows =>
    let operation := multichainACLOperation sampleCoprocessor.sender
    decide (rows.map AllowedHandleRow.key).Nodup &&
      (rows.all fun row => decide ((n.coprocessors c).allowedHandles.get? row.key = some row)) &&
      rows.all operation.pending && decide (rows.length ≤ operation.batchLimit)
  | _ => true

theorem possible_of_checkSample {n : NetworkState Unit} {i : NetworkInput Unit}
    (hi : i ∈ sampleReports) (h : checkSample n i = true) :
    sampleNetwork.Possible n i ∧ sampleNetwork.ReorgsWithin n i := by
  have hchain : ∀ tip, checkSample n (.listen () (.chain tip)) = true →
      sampleNetwork.Possible n (.listen () (.chain tip)) ∧
        sampleNetwork.ReorgsWithin n (.listen () (.chain tip)) := by
    intro tip h
    obtain ⟨htip, hlt⟩ : _ ∧ _ := by simpa [checkSample] using h
    refine ⟨htip, fun a _ hle => ?_⟩
    simp only [sampleNetwork, sampleCoprocessor, sampleArgs] at hle
    omega
  have hconfig : ∀ call, sampleNetwork.Possible n (.call 1 (.config call)) :=
    fun call _ _ h => by cases h
  fin_cases hi
  · exact hchain _ h
  · exact ⟨trivial, trivial⟩
  · exact ⟨trivial, trivial⟩
  · simp only [checkSample, Bool.and_eq_true, decide_eq_true_eq, List.all_eq_true] at h
    obtain ⟨⟨⟨hnodup, hget⟩, hpending⟩, hlength⟩ := h
    exact ⟨⟨hnodup, hget, hpending, hlength⟩, trivial⟩
  · exact ⟨honest_forkNode _, trivial⟩
  · exact ⟨honest_forkNode _, trivial⟩
  · exact ⟨trivial, trivial⟩
  · exact hchain _ h
  · exact ⟨hconfig _, trivial⟩
  · exact ⟨hconfig _, trivial⟩

theorem sampleReports_run : ∃ n, sampleNetwork.system.Run
    (fun n i => sampleNetwork.Possible n i ∧ sampleNetwork.ReorgsWithin n i) sampleReports n ∧
      n.calls = sampleCalls ∧ (n.coprocessors ()).system.tip = replacement := by
  have hreplay : (sampleNetwork.system.replay (fun n i => checkSample n i = true)
      sampleReports).map (fun n => (n.calls, (n.coprocessors ()).system.tip)) =
        some (sampleCalls, replacement) := rfl
  obtain ⟨n, hn, heq⟩ := Option.map_eq_some_iff.mp hreplay
  obtain ⟨hcalls, htip⟩ := Prod.mk.inj heq
  exact ⟨n, (System.run_of_replay hn).mono_of_mem fun i hi n h => possible_of_checkSample hi h,
    hcalls, htip⟩

theorem registered_sampleCalls {before : List (Address × GatewayCall)} {a : Address}
    (h : before <:+ sampleCalls)
    (ha : (gatewayAfter sampleChain 1 before).config.coprocessors.isTxSender a = true) : a = 30 := by
  -- a report changes nothing of the configuration
  have hreport : ∀ sender report past,
      (gatewayAfter sampleChain 1 ((sender, .allow report) :: past)).config =
        (gatewayAfter sampleChain 1 past).config := by
    intro sender report past
    rw [gatewayAfter, exec_cons, step_gateway]
  have hcoprocessors : (gatewayAfter sampleChain 1 before).config.coprocessors = .empty ∨
      (gatewayAfter sampleChain 1 before).config.coprocessors =
        Registry.empty.register ⟨30, 60, ""⟩ := by
    simp only [sampleCalls, List.suffix_cons_iff, List.suffix_nil] at h
    obtain rfl | rfl | rfl | rfl | rfl := h
    · rw [hreport, hreport]
      exact .inr rfl
    · rw [hreport]
      exact .inr rfl
    · exact .inr rfl
    · exact .inr rfl
    · exact .inl rfl
  obtain hempty | hone := hcoprocessors
  · rw [hempty] at ha
    cases ha
  · rw [hone] at ha
    by_contra hne
    change Function.update (fun _ => false) 30 true a = true at ha
    rw [Function.update_of_ne hne] at ha
    cases ha

/-- The only coprocessor does not deviate. -/
theorem fewDeviate_sampleCalls : FewDeviate sampleChain 1 sampleNetwork.Honest sampleCalls := by
  rintro past hpast deviating ⟨a, ha⟩ hdeviating
  obtain ⟨hnot, before, hbefore, hregistered⟩ := hdeviating a ha
  obtain rfl := registered_sampleCalls (hbefore.trans hpast) hregistered
  exact absurd ⟨(), rfl⟩ hnot

theorem granted_sample {target : AllowTarget} (h : sampleNetwork.Granted target) :
    target = .account (1 <<< 16) 7 ∨ target = .publicDecrypt (1 <<< 16) := by
  obtain ⟨b, hb, hgranted⟩ := h
  have hfind : forkedBlocks.find? (fun b' => b'.summary.hash = b.summary.hash) = some b := hb
  have hmem : b ∈ forkedBlocks := List.mem_of_find?_eq_some hfind
  fin_cases hmem <;> cases target <;>
    simp [Network.GrantedIn, rootBlock, orphan, replacement] at hgranted ⊢ <;> grind

theorem keyApart_sample (target : AllowTarget)
    (h : target = .account (1 <<< 16) 7 ∨ target = .publicDecrypt (1 <<< 16)) :
    sampleNetwork.KeyApart target := by
  intro target' hgranted hkey
  have hne : (AllowTarget.account (1 <<< 16) 7).key sampleNetwork.gateway.toGatewayDeployment ≠
      (AllowTarget.publicDecrypt (1 <<< 16)).key sampleNetwork.gateway.toGatewayDeployment := by
    decide +kernel
  obtain rfl | rfl := granted_sample hgranted <;> obtain rfl | rfl := h
  · rfl
  · exact absurd hkey hne
  · exact absurd hkey.symm hne
  · rfl

theorem sampleCalls_allowed :
    isAccountAllowed sampleChain.toGatewayDeployment (gatewayAfter sampleChain 1 sampleCalls).allows
        (1 <<< 16) 7 = true ∧
      isPublicDecryptAllowed (gatewayAfter sampleChain 1 sampleCalls).allows (1 <<< 16) = true := by
  decide +kernel

/-- What is allowed has been granted, by a block that is replaced. -/
theorem sampleReports_granted : ∃ n, sampleNetwork.system.Run sampleNetwork.Possible sampleReports n ∧
    isAccountAllowed sampleChain.toGatewayDeployment (sampleNetwork.gatewayIn n).allows
      (1 <<< 16) 7 = true ∧
    sampleNetwork.Granted (.account (1 <<< 16) 7) ∧
    isPublicDecryptAllowed (sampleNetwork.gatewayIn n).allows (1 <<< 16) = true ∧
    sampleNetwork.Granted (.publicDecrypt (1 <<< 16)) := by
  obtain ⟨n, hrun, hcalls, -⟩ := sampleReports_run
  have hrun := hrun.mono fun _ _ h => h.1
  have hgateway : sampleNetwork.gatewayIn n = gatewayAfter sampleChain 1 sampleCalls := by
    rw [Network.gatewayIn, hcalls]
    rfl
  obtain ⟨haccount, hpublic⟩ := sampleCalls_allowed
  rw [← hgateway] at haccount hpublic
  have h := allowed_only_granted sampleNetwork hrun (hcalls ▸ fewDeviate_sampleCalls) (1 <<< 16)
  exact ⟨n, hrun, haccount, h.1 7 (keyApart_sample _ (.inl rfl)) haccount, hpublic,
    h.2 (keyApart_sample _ (.inr rfl)) hpublic⟩

/-- It need not be granted by the chain that is canonical at the end. -/
theorem sampleReports_orphaned : ¬ ∀ (N : Network Unit) past n,
    N.system.Run (fun n i => N.Possible n i ∧ N.ReorgsWithin n i) past n →
      FewDeviate N.gateway N.owner N.Honest n.calls →
        ∀ tip, (∀ c, (n.coprocessors c).system.tip = tip) → ∀ ctHandle,
          (∀ account, N.KeyApart (.account ctHandle account) →
            isAccountAllowed N.gateway.toGatewayDeployment (N.gatewayIn n).allows ctHandle account =
              true → ∃ b, N.world.tree.Ancestor b tip ∧ N.GrantedIn b (.account ctHandle account)) ∧
          (N.KeyApart (.publicDecrypt ctHandle) →
            isPublicDecryptAllowed (N.gatewayIn n).allows ctHandle = true →
              ∃ b, N.world.tree.Ancestor b tip ∧ N.GrantedIn b (.publicDecrypt ctHandle)) := by
  intro h
  obtain ⟨n, hrun, hcalls, htip⟩ := sampleReports_run
  have hgateway : sampleNetwork.gatewayIn n = gatewayAfter sampleChain 1 sampleCalls := by
    rw [Network.gatewayIn, hcalls]
    rfl
  obtain ⟨-, hpublic⟩ := sampleCalls_allowed
  rw [← hgateway] at hpublic
  obtain ⟨b, hb, hgranted⟩ := (h sampleNetwork _ n hrun (hcalls ▸ fewDeviate_sampleCalls) replacement
    (fun _ => htip) (1 <<< 16)).2 (keyApart_sample _ (.inr rfl)) hpublic
  -- the block that is canonical now and the one below it are empty
  have hparent : forkedWorld.tree.parent replacement = some rootBlock := by decide
  have hnone : forkedWorld.tree.parent rootBlock = none := by decide
  have hempty : b.logs = [] := by
    obtain rfl | ⟨p, hp, hb⟩ := hb.eq_or_parent
    · rfl
    · obtain rfl := Option.some.inj (hparent.symm.trans hp)
      obtain rfl | ⟨p, hp, -⟩ := hb.eq_or_parent
      · rfl
      · cases hnone.symm.trans hp
  obtain ⟨caller, handlesList, tx, hlog, -⟩ := hgranted
  rw [hempty] at hlog
  cases hlog

end Samples

end Fhevm.TransactionSender
