import RenderFarm.Config.Basic
import RenderFarm.Coordinator.Event
import RenderFarm.Execution.Step
import RenderFarm.Listener
import RenderFarm.Schedule

/-!
# RenderFarm.Coordinator.Basic

The coordinator's state, what it asks its surroundings to do, and what it tells its clients.
-/

namespace RenderFarm

structure Coordinator where
  settings : Settings
  listener : Listener
  fleet : Fleet
  schedule : Schedule
  sessions : Sessions
  executions : OrderedMap ExecutionName Execution
  names : NameSource

/-- What the coordinator asks its surroundings to do, without waiting for the outcome. -/
inductive Command where
  /-- Ask the cluster for its workers, and post `Event.instancesListed` with the answer. -/
  | listInstances
  | ping (worker : Worker) (message : Wire.Ping)
  | destroy (worker : WorkerName)
  /-- Send the task; if that fails, post `Event.undelivered`. -/
  | run (worker : Worker) (message : Wire.TaskMessage) (ticket : Ticket)
  | deleteCache (worker : Worker) (message : Wire.DeleteCache)
  | post (event : Event)
  | postAfter (delay : Nat) (event : Event)

/-- A worker as clients see it. -/
structure WorkerView where
  worker : Worker
  alive : Bool
  /-- The pings that wait for an answer, unless the worker is condemned. -/
  outstanding : Option Nat
  state : Option WorkerState
  deriving DecidableEq, Repr

/-- The cluster as clients see it. -/
structure ClusterView where
  port : Option Nat
  workers : List WorkerView
  pending : Nat
  inFlight : List TaskName
  running : List ExecutionName
  deriving DecidableEq, Repr

/-- The answer to a client. -/
inductive Reply where
  | sessionCreated (name : SessionName)
  | sessionDeleted
  | execution (snapshot : Execution.Snapshot)
  /-- The worker that holds the result, and the task that made it. -/
  | result (worker : Worker) (task : TaskName)
  | cluster (view : ClusterView)
  | refused (failure : Failure)

/-- Whether the coordinator goes on after an event. -/
inductive Verdict where
  | goOn
  | warn (text : String)
  | fail (fault : InternalFault)
  | stop
  deriving DecidableEq, Repr

def Verdict.ends : Verdict → Bool
  | .fail _ | .stop => true
  | _ => false

/-- The clocks at an event: the text that goes into names, and the time for durations. -/
structure Moment where
  wallClock : String
  now : Nat
  deriving DecidableEq, Repr

def Settings.executionPolicy (s : Settings) : ExecutionPolicy :=
  ⟨s.taskTimeout, s.taskMinTimeout, s.reducingMaxRetries, s.producingFailRatio⟩

namespace Coordinator

def new (settings : Settings) : Coordinator where
  settings
  listener := .new
  fleet := .new settings.waitingPongTimeout
  schedule := .new settings.prioritizeReducing
  sessions := .empty
  executions := .empty
  names := .new

/-- Where workers reach the coordinator: the configured port, else the port that the server has
bound, else the port that it was to bind. -/
def address (c : Coordinator) : Wire.CoordinatorAddress :=
  ⟨c.settings.externalHost,
    (c.settings.externalPort.or c.listener.port?).getD c.settings.listenPort⟩

/-- What the execution needs to know of the workers. -/
def context (c : Coordinator) (session : SessionName) (now : Nat) : Execution.Context :=
  ⟨c.fleet.cacheWarm session, now⟩

/-! ## Views -/

def workerView (c : Coordinator) (m : Member) : WorkerView :=
  ⟨m.worker, m.registered, m.outstanding?, c.schedule.workerState? m.worker.name⟩

def clusterView (c : Coordinator) : ClusterView where
  port := c.listener.port?
  workers := c.fleet.members.values.map c.workerView
  pending := c.schedule.pending.length
  inFlight := c.schedule.inFlight.values.map fun a => a.task.name
  running := (c.executions.values.filter fun e => !e.isTerminal).map Execution.name

/-- The execution that a client asks for. -/
def execution? (c : Coordinator) (name : ExecutionName) : Except RequestFault Execution :=
  match c.executions.find? name with
  | some e => .ok e
  | none => .error (.unknownExecution name)

/-- Where the result of the execution is. -/
def locateResult (c : Coordinator) (name : ExecutionName) : Except Failure (Worker × TaskName) :=
  match c.execution? name with
  | .error f => .error (.request f)
  | .ok e =>
    match e.result with
    | none => .error (.request (.noResult name))
    | some r =>
      match c.fleet.worker? r.worker with
      | none => .error (.unavailable (.resultGone r.worker name))
      | some w => .ok (w, r.task)

/-! ## Task messages -/

/-- A holder that has left the cluster is no source; the external location always is. -/
def sourceMessage (f : Fleet) : ResourceSource → Option Wire.SourceMessage
  | .nothing => none
  | .external => some .external
  | .cached holder =>
    match f.worker? holder with
    | some w => some (.worker w.address)
    | none => some .external

/-- Where a partial result is, if its worker is still in the cluster. -/
def inputMessage? (f : Fleet) (r : PartialResult) : Option Wire.InputMessage :=
  (f.worker? r.worker).map fun w => ⟨r.task, r.weight, w.address⟩

/-- What a worker is told about a task. -/
def taskMessage (f : Fleet) (s : Session) (t : Task) : Wire.TaskMessage where
  name := t.name
  kind := t.kind
  execution := t.execution
  session := s.message
  seed := match t.work with
    | .produce seed _ => some seed
    | .reduce _ => none
  source := match t.work with
    | .produce _ source => sourceMessage f source
    | .reduce _ => none
  inputs := match t.work with
    | .produce .. => []
    | .reduce inputs => inputs.filterMap (inputMessage? f)

/-- What is sent for an assignment, and to whom. -/
def prepare (c : Coordinator) (a : Assignment) : Except Failure (Worker × Wire.TaskMessage) :=
  match c.fleet.worker? a.worker with
  | none => .error (.unavailable (.unknownWorker a.worker))
  | some w =>
    match c.sessions.find? a.task.session with
    | none => .error (.internal (.lostSession a.task.session a.task.name))
    | some s => .ok (w, taskMessage c.fleet s a.task)

end Coordinator
end RenderFarm
