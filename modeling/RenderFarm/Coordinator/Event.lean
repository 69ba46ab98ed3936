import RenderFarm.Session
import RenderFarm.Wire.Decode

/-!
# RenderFarm.Coordinator.Event

What the coordinator reacts to, one event at a time: reports of the workers, requests of the
clients, and the news that the coordinator sends itself.

* `Event.ofCall` reads the report that a worker makes by calling a method.
* `Event.label` and `Event.attributes` describe an event in a trace.
-/

namespace RenderFarm

inductive Event where
  /-- The server listens on the port. -/
  | serverReady (port : Nat)
  | reconcileWorkers
  | instancesListed (listing : Except Failure (List Worker))
  | pong (report : Wire.Pong)
  | taskFinished (worker : WorkerName) (task : TaskName) (elapsed : Nat) (weight : Option Nat)
      (cached : Option (List SessionName))
  | fetchingFinished (worker : WorkerName) (task : TaskName) (elapsed : Nat)
      (cached : Option (List SessionName))
  | taskFailed (worker : WorkerName) (task : TaskName) (reason : String)
  /-- The worker could not be given the task. -/
  | dispatchFailed (worker : WorkerName) (task : TaskName) (ticket : Ticket) (reason : String)
  | probeTimeout (task : TaskName) (ticket : Ticket)
  | createSession (request : SessionRequest)
  | deleteSession (name : SessionName) (owner : Option String)
  | createExecution (request : ExecutionRequest)
  | getExecution (name : ExecutionName)
  | resolveResult (name : ExecutionName)
  | observeCluster
  | shutdown

namespace Event

def ofFinish (f : Wire.Finish) : Event :=
  match f.kind with
  | .task => .taskFinished f.worker f.task f.elapsed f.weight f.cached
  | .fetching => .fetchingFinished f.worker f.task f.elapsed f.cached

def ofFailed (f : Wire.Failed) : Event := .taskFailed f.worker f.task f.reason

/-- Why a task is taken off a worker that was not reached. -/
def undelivered (worker : WorkerName) (task : TaskName) (ticket : Ticket) (f : Failure) : Event :=
  .dispatchFailed worker task ticket ("dispatch failed: " ++ f.message)

/-- The report that a worker makes by calling the method. -/
def ofCall (method : String) (params : Json) : Except Failure Event :=
  let read {α : Type} (d : Json.Decoder α) (event : α → Event) : Except Failure Event :=
    match Json.decode d params with
    | .ok a => .ok (event a)
    | .error f => .error (.json f)
  if method = Wire.pongMethod then read Wire.Pong.decoder .pong
  else if method = Wire.finishMethod then read Wire.Finish.decoder ofFinish
  else if method = Wire.failedMethod then read Wire.Failed.decoder ofFailed
  else .error (.request (.unknownMethod method))

/-! ## Traces -/

def label : Event → String
  | .serverReady .. => "ServerReady"
  | .reconcileWorkers => "ReconcileWorkers"
  | .instancesListed .. => "InstancesListed"
  | .pong .. => "Pong"
  | .taskFinished .. => "TaskFinished"
  | .fetchingFinished .. => "FetchingFinished"
  | .taskFailed .. => "TaskFailed"
  | .dispatchFailed .. => "DispatchFailed"
  | .probeTimeout .. => "ProbeTaskTimeout"
  | .createSession .. => "CreateSession"
  | .deleteSession .. => "DeleteSession"
  | .createExecution .. => "CreateExecution"
  | .getExecution .. => "GetExecution"
  | .resolveResult .. => "ResolveResult"
  | .observeCluster => "ObserveCluster"
  | .shutdown => "Shutdown"

def workerAttribute (w : WorkerName) : String × String := ("cluster.worker.name", w.text)
def taskAttribute (t : TaskName) : String × String := ("execution.task.name", t.text)
def elapsedAttribute (ms : Nat) : String × String := ("execution.task.elapsed_ms", toString ms)
def reasonAttribute (reason : String) : String × String := ("execution.task.reason", reason)
def ticketAttribute (t : Ticket) : String × String := ("execution.dispatch.id", toString t)
def sessionAttribute (s : SessionName) : String × String := ("execution.session.name", s.text)
def executionAttribute (e : ExecutionName) : String × String := ("execution.name", e.text)

def attributes : Event → List (String × String)
  | .serverReady port => [("cluster.coordinator.port", toString port)]
  | .instancesListed (.ok ws) => [("cluster.worker.count", toString ws.length)]
  | .pong report => [workerAttribute report.worker]
  | .taskFinished w t elapsed weight _ =>
    [workerAttribute w, taskAttribute t, elapsedAttribute elapsed] ++
      (weight.map fun n => ("execution.task.weight", toString n)).toList
  | .fetchingFinished w t elapsed _ => [workerAttribute w, taskAttribute t, elapsedAttribute elapsed]
  | .taskFailed w t reason => [workerAttribute w, taskAttribute t, reasonAttribute reason]
  | .dispatchFailed w t ticket reason =>
    [workerAttribute w, taskAttribute t, ticketAttribute ticket, reasonAttribute reason]
  | .probeTimeout t ticket => [taskAttribute t, ticketAttribute ticket]
  | .deleteSession name _ => [sessionAttribute name]
  | .createExecution r =>
    [sessionAttribute r.session, ("execution.parallel", toString r.parallel)]
  | .getExecution name | .resolveResult name => [executionAttribute name]
  | .instancesListed (.error _) | .reconcileWorkers | .createSession _ | .observeCluster
  | .shutdown => []

end Event
end RenderFarm
