import Fhevm.Scheduler.Execute
import Fhevm.Scheduler.Outputs
import Fhevm.Scheduler.PartitionComponents

/-!
# The scheduler

Tasks without dependences are spawned first. Whenever a task is joined its
results are stored, in the iteration order of the map they come back in, and
the tasks that waited for it only are spawned. Which running task is joined
next, and the order of its results, are not determined.

## Main definitions

* `SchedState` — the state between two joins, with the history of joined tasks.
* `scheduleStart` — the state in which the loop is entered.
* `completeTask`, `Step`, `Reachable` — one round of the loop, and all runs.
-/

namespace Fhevm.Scheduler

open Foundation

variable {R S ε : Type}

/-! ## The source -/

inductive PartitionStrategy
  | maxParallelism
  | maxLocality
deriving DecidableEq, Repr

/-- A spawned task. The position of each component in the graph, and the results
that had been stored when the task was spawned, are history. -/
structure Task (R ε : Type) where
  taskIndex : ℕ
  components : List (ℕ × ComponentArgs R)
  seen : Inserts R ε

/-- The arguments that the task runs on. -/
def Task.args (t : Task R ε) : List (ComponentArgs R) := t.components.map Prod.snd

/-- The state of the scheduling loop. The joined tasks, with the order in which
their results were stored, are history. -/
structure SchedState (R ε : Type) where
  graph : DFComponentGraph R ε
  executionGraph : Dag ExecNode Unit
  running : List (Task R ε)
  joined : List (Task R ε × Inserts R ε)

/-- All results stored so far, in order. -/
def SchedState.log (s : SchedState R ε) : Inserts R ε := s.joined.flatMap Prod.snd

def ComponentNode.toArgs (tx : ComponentNode R) : ComponentArgs R :=
  ⟨tx.graph, tx.inputs, tx.transactionId, tx.componentId⟩

/-- What is left of a component whose graph and inputs were taken. -/
def ComponentNode.taken (tx : ComponentNode R) : ComponentNode R :=
  { tx with graph := DFGraph.empty, inputs := HashMap.empty }

/-- Take one component of a task, unless it is to be skipped. -/
def takeComponent (skipUncomputable : Bool)
    (s : DFComponentGraph R ε × List (ℕ × ComponentArgs R)) (nidx : ℕ) :
    Except SchedulerError (DFComponentGraph R ε × List (ℕ × ComponentArgs R)) :=
  match s.1.graph.nodes[nidx]? with
  | none => .error .dataflowGraphError
  | some tx =>
    if skipUncomputable && tx.isUncomputable then .ok s
    else .ok ({ s.1 with graph := s.1.graph.modifyNode nidx ComponentNode.taken },
      s.2 ++ [(nidx, tx.toArgs)])

def spawnTask (skipUncomputable : Bool) (s : SchedState R ε) (index : ℕ) (node : ExecNode) :
    Except SchedulerError (SchedState R ε) :=
  match node.dfNodes.foldlM (takeComponent skipUncomputable) (s.graph, []) with
  | .error e => .error e
  | .ok (graph, components) =>
    .ok { s with graph := graph, running := s.running ++ [⟨index, components, s.log⟩] }

def isReadyTask (node : ExecNode) : Bool := node.dependenceCounter == 0

/-- The atomic decrement, which wraps. -/
def fetchSub (counter : ℕ) : ℕ := if counter = 0 then usizeMax else counter - 1

/-- Spawn a node of the execution graph that has no dependences. -/
def primeNode (s : SchedState R ε) (idx : ℕ) : Except SchedulerError (SchedState R ε) :=
  match s.executionGraph.nodes[idx]? with
  | none => .error .dataflowGraphError
  | some node => if isReadyTask node then spawnTask false s idx node else .ok s

/-- Prime the scheduler with all nodes without dependences. -/
def scheduleStart (g : DFComponentGraph R ε) (executionGraph : Dag ExecNode Unit) :
    Except SchedulerError (SchedState R ε) :=
  (List.range executionGraph.nodeCount).foldlM primeNode ⟨g, executionGraph, [], []⟩

/-- One dependent of a joined task: decrement its counter, spawn it at zero. -/
def releaseDependent (s : SchedState R ε) (e : Edge Unit) :
    Except SchedulerError (SchedState R ε) :=
  match s.executionGraph.nodes[e.target]? with
  | none => .error .dataflowGraphError
  | some node =>
    let node := { node with dependenceCounter := fetchSub node.dependenceCounter }
    let s := { s with executionGraph := s.executionGraph.modifyNode e.target (fun _ => node) }
    if isReadyTask node then spawnTask true s e.target node else .ok s

/-- Join the task `t`, whose results are visited in the order `results`; `rest`
are the tasks still running. `edges` and `taskDependences` are the shapes of
the component graph and of the execution graph. -/
def completeTask (edges taskDependences : Dag Unit Unit) (s : SchedState R ε) (t : Task R ε)
    (rest : List (Task R ε)) (results : Inserts R ε) : Except SchedulerError (SchedState R ε) :=
  match results.foldlM (fun g r => g.addOutput edges r.1 r.2) s.graph with
  | .error e => .error e
  | .ok graph =>
    (taskDependences.outgoing t.taskIndex).foldlM releaseDependent
      { s with graph := graph, running := rest, joined := s.joined ++ [(t, results)] }

/-- The shape of a graph. -/
def shape {N : Type} (g : Dag N Unit) : Dag Unit Unit := g.mapNodes (fun _ => ())

/-- The partition that a strategy chooses. -/
def partitionWith (T : Toposort) (strategy : PartitionStrategy) (g : DFComponentGraph R ε) :
    Except SchedulerError (Dag ExecNode Unit) :=
  match strategy with
  | .maxLocality => partitionComponents T g.graph
  | .maxParallelism => partitionPreservingParallelism T g.graph

/-- The state in which `schedule_coarse_grain` enters its loop. -/
def scheduleCoarseGrain (T : Toposort) (strategy : PartitionStrategy)
    (g : DFComponentGraph R ε) : Except SchedulerError (SchedState R ε) :=
  match partitionWith T strategy g with
  | .error e => .error e
  | .ok executionGraph => scheduleStart g executionGraph

/-- One round of the loop: some running task is joined, and its results are
visited in some order. -/
inductive Step (eng : FheEngine R S ε) (T : Toposort) (edges taskDependences : Dag Unit Unit) :
    SchedState R ε → SchedState R ε → Prop
  | join {s s' : SchedState R ε} {before after : List (Task R ε)} {t : Task R ε}
      {results : Inserts R ε}
      (hrunning : s.running = before ++ t :: after)
      (hresults : results.Perm (executePartition eng T t.args).entries)
      (h : completeTask edges taskDependences s t (before ++ after) results = .ok s') :
      Step eng T edges taskDependences s s'

/-- The states the loop can reach from the state in which it is entered. -/
def Reachable (eng : FheEngine R S ε) (T : Toposort) (strategy : PartitionStrategy)
    (g : DFComponentGraph R ε) (s : SchedState R ε) : Prop :=
  ∃ executionGraph s₀, partitionWith T strategy g = .ok executionGraph ∧
    scheduleStart g executionGraph = .ok s₀ ∧
    Relation.ReflTransGen (Step eng T (shape g.graph) (shape executionGraph)) s₀ s

/-- The loop ends when no task is running. -/
def Final (s : SchedState R ε) : Prop := s.running = []

/-! ## The run in which tasks complete in the order they were spawned -/

def scheduleInOrder (eng : FheEngine R S ε) (T : Toposort) (edges taskDependences : Dag Unit Unit) :
    ℕ → SchedState R ε → Except SchedulerError (SchedState R ε)
  | 0, s => .ok s
  | fuel + 1, s =>
    match s.running with
    | [] => .ok s
    | t :: rest =>
      match completeTask edges taskDependences s t rest (executePartition eng T t.args).entries with
      | .error e => .error e
      | .ok s => scheduleInOrder eng T edges taskDependences fuel s

/-- The state at the end of that run. -/
def runInOrder (eng : FheEngine R S ε) (T : Toposort) (strategy : PartitionStrategy)
    (g : DFComponentGraph R ε) : Except SchedulerError (SchedState R ε) :=
  match partitionWith T strategy g with
  | .error e => .error e
  | .ok executionGraph =>
    match scheduleStart g executionGraph with
    | .error e => .error e
    | .ok s => scheduleInOrder eng T (shape g.graph) (shape executionGraph)
        executionGraph.nodeCount s

theorem scheduleInOrder_steps {eng : FheEngine R S ε} {T : Toposort}
    {edges taskDependences : Dag Unit Unit} {fuel : ℕ} {s s' : SchedState R ε}
    (h : scheduleInOrder eng T edges taskDependences fuel s = .ok s') :
    Relation.ReflTransGen (Step eng T edges taskDependences) s s' := by
  induction fuel generalizing s with
  | zero =>
    cases h
    exact .refl
  | succ fuel ih =>
    unfold scheduleInOrder at h
    split at h
    · cases h
      exact .refl
    · rename_i t rest hrunning
      split at h
      · cases h
      · rename_i s₁ hs₁
        have hsplit : s.running = [] ++ t :: rest := hrunning
        exact .head (.join hsplit (.refl _) hs₁) (ih h)

theorem runInOrder_reachable {eng : FheEngine R S ε} {T : Toposort} {strategy : PartitionStrategy}
    {g : DFComponentGraph R ε} {s : SchedState R ε} (h : runInOrder eng T strategy g = .ok s) :
    Reachable eng T strategy g s := by
  unfold runInOrder at h
  split at h
  · cases h
  rename_i X hX
  split at h
  · cases h
  rename_i s₀ hs₀
  exact ⟨X, s₀, hX, hs₀, scheduleInOrder_steps h⟩

end Fhevm.Scheduler
