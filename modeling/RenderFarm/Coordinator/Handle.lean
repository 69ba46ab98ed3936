import RenderFarm.Coordinator.Basic

/-!
# RenderFarm.Coordinator.Handle

How the coordinator handles an event. It changes its own state and gives the commands that its
surroundings are to carry out, in order; it never waits for them.

* `start` is the state before the first event.
* `react` takes any event.
* `handle` does the same and, after every event that may let a task run, gives waiting tasks to
  idle workers, so no task waits while a worker is idle.
* `handle?` says whether the program gets through the event. Where it stops, the coordinator is gone
  with all that it was asked and with all that it had asked for.
-/

namespace RenderFarm
namespace Coordinator

/-- A part of the handling of an event. -/
structure Turn where
  coordinator : Coordinator
  commands : List Command := []

/-- Goes on from where a turn ended. -/
def Turn.andThen (t : Turn) (f : Coordinator → Turn) : Turn :=
  let u := f t.coordinator
  ⟨u.coordinator, t.commands ++ u.commands⟩

/-- Goes through a list in turns. -/
def turns {α : Type} (f : Coordinator → α → Turn) : List α → Coordinator → Turn
  | [], c => ⟨c, []⟩
  | a :: as, c => (f c a).andThen (turns f as)

/-! ## Executions -/

/-- The execution is over: its session is free, and its waiting tasks are dropped. -/
def endExecution (c : Coordinator) (name : ExecutionName) : Coordinator :=
  let sessions :=
    match c.executions.find? name with
    | some e => c.sessions.endExecution e.session name
    | none => c.sessions
  { c with sessions, schedule := (c.schedule.dropExecution name).1 }

def probeCommand (p : Probe) : Command := .postAfter p.delay (.probeTimeout p.task p.ticket)

/-- Carries out an action of an execution. -/
def act (name : ExecutionName) (now : Nat) (c : Coordinator) : Execution.Action → Turn
  | .enqueue task => { coordinator := { c with schedule := c.schedule.enqueue task } }
  | .adjustTimeout timeout =>
    let (schedule, probes) := c.schedule.retime name timeout now
    ⟨{ c with schedule }, probes.map probeCommand⟩
  | .finish _ | .fail _ => { coordinator := c.endExecution name }

/-- Stores the next state of an execution and carries out its actions. -/
def follow (c : Coordinator) (now : Nat) (change : Execution × List Execution.Action) : Turn :=
  let (e, actions) := change
  turns (act e.name now) actions { c with executions := c.executions.insert e.name e }

/-- Tells the execution about one of its tasks, if the execution is known. -/
def inform (c : Coordinator) (now : Nat) (name : ExecutionName) (session : SessionName)
    (report : Execution → Execution.Context → Execution × List Execution.Action) : Turn :=
  match c.executions.find? name with
  | some e => c.follow now (report e (c.context session now))
  | none => { coordinator := c }

/-- The task has failed. -/
def failTask (now : Nat) (reason : String) (c : Coordinator) (t : Task) : Turn :=
  c.inform now t.execution t.session fun e ctx => e.taskFailed t.name reason ctx

/-! ## Workers -/

/-- What it takes to give the assigned task to its worker: first the reminder, then the task. -/
def deliver (c : Coordinator) (a : Assignment) : List Command :=
  match c.prepare a with
  | .ok (w, message) =>
    [.postAfter a.task.timeout (.probeTimeout a.task.name a.ticket), .run w message a.ticket]
  | .error f => [.post (.undelivered a.worker a.task.name a.ticket f)]

/-- Gives waiting tasks to idle workers. If the tickets run out, nothing is sent. -/
def dispatch (now : Nat) (c : Coordinator) : Turn :=
  let pass := c.schedule.dispatch c.fleet now
  let c := { c with schedule := pass.schedule, fleet := pass.fleet }
  ⟨c, (pass.assignments.getD []).flatMap c.deliver⟩

/-- The scheduled workers become the live ones; the tasks of the others are lost. -/
def syncWorkers (now : Nat) (c : Coordinator) : Turn :=
  let (schedule, orphans) := c.schedule.syncWorkers c.fleet.live
  turns (failTask now "worker lost") (orphans.map Assignment.task) { c with schedule }

/-- What a round asks for: pings first, then the end of the condemned workers. -/
def roundCommands (c : Coordinator) (round : Fleet.Round) : List Command :=
  (round.pings.map fun w => .ping w ⟨w.name, c.address⟩) ++
    if c.settings.destroyZombies then round.condemned.map .destroy else []

/-- The worker's own list of sessions whose resources it holds, if it sent one. -/
def noteCaches (c : Coordinator) (worker : WorkerName) : Option (List SessionName) → Coordinator
  | some sessions => { c with fleet := c.fleet.updateCaches worker sessions }
  | none => c

def evict (c : Coordinator) (worker : WorkerName) : Coordinator :=
  { c with fleet := (c.fleet.evict worker).1 }

/-! ## Events -/

/-- How an event was handled. -/
structure Outcome where
  coordinator : Coordinator
  commands : List Command := []
  reply : Option Reply := none
  verdict : Verdict := .goOn
  /-- A task may be able to run now. -/
  wakes : Bool := false

/-- The outcome of a turn after which a task may be able to run. -/
def Turn.awake (t : Turn) : Outcome :=
  { coordinator := t.coordinator, commands := t.commands, wakes := true }

def answer (c : Coordinator) (r : Reply) : Outcome := { coordinator := c, reply := some r }

/-- A ready server that was not pending is a fault, and leaves no server. -/
def serverReady (c : Coordinator) (port : Nat) : Outcome :=
  match c.listener.ready port with
  | .ok listener => { coordinator := { c with listener } }
  | .error fault => { coordinator := { c with listener := .new }, verdict := .fail fault }

def reconcileWorkers (c : Coordinator) : Outcome where
  coordinator := c
  commands := [.listInstances, .postAfter c.settings.manageInterval .reconcileWorkers]

def instancesListed (c : Coordinator) (now : Nat) : Except Failure (List Worker) → Outcome
  | .error f =>
    { coordinator := c, verdict := .warn ("failed to list worker instances: " ++ f.message) }
  | .ok workers =>
    let (fleet, round) := c.fleet.reconcile workers
    let c := { c with fleet }
    (Turn.mk c (c.roundCommands round)).andThen (syncWorkers now) |>.awake

def pong (c : Coordinator) (now : Nat) (report : Wire.Pong) : Outcome :=
  let (fleet, outcome) := c.fleet.pong report.worker report.cached
  let c := { c with fleet }
  match outcome with
  | .registered => (c.syncWorkers now).awake
  | .alive | .ignored => { coordinator := c }

def taskFinished (c : Coordinator) (now : Nat) (worker : WorkerName) (task : TaskName)
    (elapsed : Nat) (weight : Option Nat) (cached : Option (List SessionName)) : Outcome :=
  let c := c.noteCaches worker cached
  match c.schedule.complete worker task with
  | (_, none) => { coordinator := c }
  | (schedule, some a) =>
    ({ c with schedule }.inform now a.task.execution a.task.session fun e ctx =>
      e.taskFinished ⟨task, worker, elapsed, weight⟩ ctx).awake

/-- Resources that a worker has fetched for a task that it runs. -/
def fetchingFinished (c : Coordinator) (now : Nat) (worker : WorkerName) (task : TaskName)
    (elapsed : Nat) (cached : Option (List SessionName)) : Outcome :=
  let c := c.noteCaches worker cached
  match c.schedule.inFlight.find? task with
  | none => { coordinator := c }
  | some a =>
    if a.worker = worker then
      ({ c with fleet := c.fleet.markCached worker a.task.session }.inform now a.task.execution
        a.task.session fun e ctx => e.fetchingFinished task elapsed ctx).awake
    else { coordinator := c }

def taskFailed (c : Coordinator) (now : Nat) (worker : WorkerName) (task : TaskName)
    (reason : String) : Outcome :=
  match c.schedule.complete worker task with
  | (_, none) => { coordinator := c }
  | (schedule, some a) =>
    (failTask now reason { c with schedule } a.task).awake

def dispatchFailed (c : Coordinator) (now : Nat) (worker : WorkerName) (task : TaskName)
    (ticket : Ticket) (reason : String) : Outcome :=
  match c.schedule.abort task ticket with
  | (_, none) => { coordinator := c }
  | (schedule, some a) =>
    (failTask now reason ({ c with schedule }.evict worker) a.task).awake

def probeTimeout (c : Coordinator) (now : Nat) (task : TaskName) (ticket : Ticket) : Outcome :=
  match c.schedule.expire task ticket now with
  | (_, .stale) => { coordinator := c }
  | (_, .remaining delay) =>
    { coordinator := c, commands := [.postAfter delay (.probeTimeout task ticket)] }
  | (schedule, .expired a) =>
    (failTask now "timeout" ({ c with schedule }.evict a.worker) a.task).awake

def createSession (c : Coordinator) (clock : String) (r : SessionRequest) : Outcome :=
  let (text, names) := c.names.next "session" clock
  let name : SessionName := ⟨text⟩
  { c with names, fleet := c.fleet.track name, sessions := c.sessions.create name r }.answer
    (.sessionCreated name)

def deleteSession (c : Coordinator) (name : SessionName) (owner : Option String) : Outcome :=
  match c.sessions.delete name owner with
  | .error f => c.answer (.refused (.request f))
  | .ok (_, sessions) =>
    let (fleet, holders) := c.fleet.untrack name
    { coordinator := { c with sessions, fleet }
      commands := (holders.filterMap fleet.worker?).map fun w => .deleteCache w ⟨name⟩
      reply := some .sessionDeleted }

def createExecution (c : Coordinator) (m : Moment) (r : ExecutionRequest) : Outcome :=
  let (text, names) := c.names.next "execution" m.wallClock
  let name : ExecutionName := ⟨text⟩
  let c := { c with names }
  match c.sessions.beginExecution r name with
  | .error f => c.answer (.refused (.request f))
  | .ok (s, sessions) =>
    let c := { c with sessions }
    let change := (Execution.create c.settings.executionPolicy name r.session r.parallel
      s.hasResources m.now).start (c.context r.session m.now)
    { (c.follow m.now change).awake with reply := some (.execution change.1.snapshot) }

def getExecution (c : Coordinator) (name : ExecutionName) : Outcome :=
  match c.execution? name with
  | .ok e => c.answer (.execution e.snapshot)
  | .error f => c.answer (.refused (.request f))

def resolveResult (c : Coordinator) (name : ExecutionName) : Outcome :=
  match c.locateResult name with
  | .ok (w, t) => c.answer (.result w t)
  | .error f => c.answer (.refused f)

/-- What an event changes before any waiting task is given to a worker. -/
def react (c : Coordinator) (m : Moment) : Event → Outcome
  | .serverReady port => c.serverReady port
  | .reconcileWorkers => c.reconcileWorkers
  | .instancesListed listing => c.instancesListed m.now listing
  | .pong report => c.pong m.now report
  | .taskFinished w t elapsed weight cached => c.taskFinished m.now w t elapsed weight cached
  | .fetchingFinished w t elapsed cached => c.fetchingFinished m.now w t elapsed cached
  | .taskFailed w t reason => c.taskFailed m.now w t reason
  | .dispatchFailed w t ticket reason => c.dispatchFailed m.now w t ticket reason
  | .probeTimeout t ticket => c.probeTimeout m.now t ticket
  | .createSession r => c.createSession m.wallClock r
  | .deleteSession name owner => c.deleteSession name owner
  | .createExecution r => c.createExecution m r
  | .getExecution name => c.getExecution name
  | .resolveResult name => c.resolveResult name
  | .observeCluster => c.answer (.cluster c.clusterView)
  | .shutdown => { coordinator := c, verdict := .stop }

/-- Handles an event at a moment. -/
def handle (c : Coordinator) (m : Moment) (event : Event) : Outcome :=
  let o := c.react m event
  if o.wakes then
    let t := dispatch m.now o.coordinator
    { o with coordinator := t.coordinator, commands := o.commands ++ t.commands }
  else o

/-- Whether a sum of an execution has exceeded a word. -/
def overflowed (c : Coordinator) : Bool := c.executions.values.any Execution.overflowed

/-- How the event is handled; there is no outcome if the program stops at a sum of an execution. -/
def handle? (c : Coordinator) (m : Moment) (event : Event) : Option Outcome :=
  let outcome := c.handle m event
  if outcome.coordinator.overflowed then none else some outcome

/-- A coordinator that waits for its server, and for the first look at the cluster. -/
def start (settings : Settings) : Turn :=
  let c := new settings
  ⟨{ c with listener := c.listener.start }, [.post .reconcileWorkers]⟩

end Coordinator
end RenderFarm
