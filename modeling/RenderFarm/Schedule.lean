import RenderFarm.Fleet
import RenderFarm.Task

/-!
# RenderFarm.Schedule

The tasks that wait, the tasks that run, and the live workers, each idle or busy.

* `enqueue` adds a task to the queue; merges may go in front of the producing tasks.
* `dispatch` pairs waiting tasks with idle workers until either runs out.
* `complete`, `expire` and `abort` end an assignment by report, by timeout and by failed
  delivery. An assignment is known by its ticket, so a late message about an earlier one is
  told from the current one.
* `syncWorkers` follows the live workers and gives back the tasks of those that left.
-/

namespace RenderFarm

/-- A task on its worker. -/
structure Assignment where
  task : Task
  worker : WorkerName
  ticket : Ticket
  since : Nat
  deriving DecidableEq, Repr

inductive WorkerState where
  | idle
  | busy (kind : TaskKind)
  deriving DecidableEq, Repr

/-- A reminder to check an assignment after the delay. -/
structure Probe where
  task : TaskName
  ticket : Ticket
  delay : Nat
  deriving DecidableEq, Repr

inductive Expiry where
  /-- The time is over: the task is off its worker, and the worker out of the pool. -/
  | expired (a : Assignment)
  | remaining (delay : Nat)
  /-- The assignment is over. -/
  | stale
  deriving DecidableEq, Repr

structure Schedule where
  /-- Merges go in front of the producing tasks. -/
  reducingFirst : Bool
  pending : List Task
  inFlight : OrderedMap TaskName Assignment
  idle : List WorkerName
  busy : OrderedMap WorkerName TaskKind
  tickets : TicketSource

namespace Schedule

def new (reducingFirst : Bool) : Schedule :=
  ⟨reducingFirst, [], .empty, [], .empty, .new⟩

/-! ## The queue -/

/-- Puts the task in front of the first producing task. -/
def insertBeforeProducing (t : Task) : List Task → List Task
  | [] => [t]
  | u :: us => if u.kind = .producing then t :: u :: us else u :: insertBeforeProducing t us

def enqueue (s : Schedule) (t : Task) : Schedule :=
  if s.reducingFirst && t.kind == .reducing then
    { s with pending := insertBeforeProducing t s.pending }
  else { s with pending := s.pending ++ [t] }

/-- Drops the waiting tasks of the execution and tells how many there were. -/
def dropExecution (s : Schedule) (execution : ExecutionName) : Schedule × Nat :=
  let kept := s.pending.filter fun t => t.execution ≠ execution
  ({ s with pending := kept }, s.pending.length - kept.length)

/-! ## Dispatch -/

/-- A producing task that would fetch its resources from afar takes them from a live worker that
holds them, if there is one. -/
def withAffinity (t : Task) (f : Fleet) : Task × Fleet :=
  match t.work with
  | .produce seed .external =>
    match f.takeCached t.session with
    | (some w, f) => ({ t with work := .produce seed (.cached w) }, f)
    | (none, f) => (t, f)
  | _ => (t, f)

/-- Takes the task to the worker with the next ticket. -/
def assign (s : Schedule) (t : Task) (w : WorkerName) (ticket : Ticket) (now : Nat) :
    Schedule × Assignment :=
  let a : Assignment := ⟨t, w, ticket, now⟩
  ({ s with busy := s.busy.insert w t.kind, inFlight := s.inFlight.insert t.name a }, a)

/-- What a dispatch pass leaves behind; `assignments` is absent if the tickets ran out. -/
structure Pass where
  schedule : Schedule
  fleet : Fleet
  assignments : Option (List Assignment)

/-- Goes through the waiting tasks in order. -/
def dispatchAll (now : Nat) : List Task → Schedule → Fleet → Pass
  | [], s, f => ⟨{ s with pending := [] }, f, some []⟩
  | t :: ts, s, f =>
    match s.idle with
    | [] => ⟨{ s with pending := t :: ts }, f, some []⟩
    | w :: ws =>
      let (t, f) := withAffinity t f
      match s.tickets.next? with
      | none => ⟨{ s with pending := ts, idle := ws }, f, none⟩
      | some (ticket, tickets) =>
        let (s, a) := { s with idle := ws, tickets }.assign t w ticket now
        let rest := dispatchAll now ts s f
        { rest with assignments := rest.assignments.map (a :: ·) }

/-- Pairs waiting tasks with idle workers in order until either runs out. -/
def dispatch (s : Schedule) (f : Fleet) (now : Nat) : Pass :=
  dispatchAll now s.pending s f

/-! ## The end of an assignment -/

/-- The worker reports the end of the task; a report from another worker is ignored. -/
def complete (s : Schedule) (worker : WorkerName) (task : TaskName) :
    Schedule × Option Assignment :=
  match s.inFlight.find? task with
  | none => (s, none)
  | some a =>
    if a.worker = worker then
      let s := { s with inFlight := s.inFlight.erase task }
      if s.busy.contains worker then
        ({ s with busy := s.busy.erase worker, idle := s.idle ++ [worker] }, some a)
      else (s, some a)
    else (s, none)

/-- The current assignment of the task, if it has the ticket. -/
def current? (s : Schedule) (task : TaskName) (ticket : Ticket) : Option Assignment :=
  match s.inFlight.find? task with
  | some a => if a.ticket = ticket then some a else none
  | none => none

/-- Takes the task off its worker and the worker out of the pool. -/
def release (s : Schedule) (task : TaskName) (worker : WorkerName) : Schedule :=
  { s with inFlight := s.inFlight.erase task, busy := s.busy.erase worker,
           idle := s.idle.filter (· ≠ worker) }

/-- The worker could not be given the task. -/
def abort (s : Schedule) (task : TaskName) (ticket : Ticket) : Schedule × Option Assignment :=
  match s.current? task ticket with
  | some a => (s.release task a.worker, some a)
  | none => (s, none)

/-- Checks the assignment against the timeout that its task has now. -/
def expire (s : Schedule) (task : TaskName) (ticket : Ticket) (now : Nat) : Schedule × Expiry :=
  match s.current? task ticket with
  | none => (s, .stale)
  | some a =>
    if now - a.since < a.task.timeout then (s, .remaining (a.task.timeout - (now - a.since)))
    else (s.release task a.worker, .expired a)

/-! ## The workers -/

/-- Makes idle every member that is neither idle nor busy. -/
def enlist (s : Schedule) : List WorkerName → Schedule
  | [] => s
  | w :: ws =>
    if s.busy.contains w || w ∈ s.idle then enlist s ws
    else enlist { s with idle := s.idle ++ [w] } ws

/-- Follows the live workers; gives the assignments of the workers that left. -/
def syncWorkers (s : Schedule) (members : List WorkerName) : Schedule × List Assignment :=
  let lost := s.busy.keys.filter (· ∉ members)
  let orphans := s.inFlight.values.filter fun a => a.worker ∈ lost
  let s := { s with
    idle := s.idle.filter (· ∈ members)
    busy := s.busy.filter fun w _ => w ∉ lost
    inFlight := s.inFlight.filter fun _ a => a.worker ∉ lost }
  (s.enlist members, orphans)

def workerState? (s : Schedule) (w : WorkerName) : Option WorkerState :=
  match s.busy.find? w with
  | some kind => some (.busy kind)
  | none => if w ∈ s.idle then some .idle else none

/-! ## Timeouts -/

/-- A producing task of the execution gets the timeout. -/
def retimed (execution : ExecutionName) (timeout : Nat) (t : Task) : Task :=
  if t.execution = execution ∧ t.kind = .producing then { t with timeout } else t

/-- Gives a new timeout to the producing tasks of the execution, with a probe for each that
runs, so that a shorter timeout takes effect. -/
def retime (s : Schedule) (execution : ExecutionName) (timeout now : Nat) :
    Schedule × List Probe :=
  let affected := s.inFlight.values.filter fun a =>
    a.task.execution = execution ∧ a.task.kind = .producing
  ({ s with
      pending := s.pending.map (retimed execution timeout)
      inFlight := s.inFlight.mapValues fun _ a =>
        { a with task := retimed execution timeout a.task } },
    affected.map fun a => ⟨a.task.name, a.ticket, timeout - (now - a.since)⟩)

end Schedule
end RenderFarm
