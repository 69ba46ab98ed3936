import RenderFarm.Cluster
import RenderFarm.Coordinator.Handle
import RenderFarm.Coordinator.Server

/-!
# RenderFarm.Rehearsal

The coordinator on a stage: with a clock that is moved by hand, a fixed cluster, and workers that
only take note of what they are asked. Everything that the coordinator asks of its surroundings is
recorded as an effect.

Handling an event takes no time, so a task that runs is never older than when it began; only
reminders follow the clock.

* `settle` handles what is in the mailbox, and what comes of it, until nothing is left.
* `start` raises the curtain; the operations after it are what can happen on the stage.
-/

namespace RenderFarm

/-- Something that the coordinator did to its surroundings. -/
inductive Effect where
  | listed
  | pinged (worker : Worker) (message : Wire.Ping)
  | ran (worker : WorkerName) (message : Wire.TaskMessage)
  | deletedCache (worker : WorkerName) (session : SessionName)
  | destroyed (worker : WorkerName)
  | fetchedResult (worker : WorkerName) (task : TaskName)

structure Rehearsal where
  coordinator : Coordinator
  stopped : Bool := false
  clock : Nat := 0
  /-- The events to handle, in the order of their arrival. -/
  mailbox : List Event := []
  /-- The events to come, each with its time. -/
  reminders : List (Nat × Event) := []
  cluster : Cluster
  /-- Whether the server can be reached from outside. -/
  reachable : Bool
  /-- The workers that fail whatever they are asked. -/
  refusals : OrderedMap WorkerName Failure := .empty
  /-- Why the cluster cannot be listed. -/
  listFailure : Option Failure := none
  /-- What has been done since the last look, latest first. -/
  effects : List Effect := []
  /-- The answer to the latest request. -/
  reply : Option Reply := none

namespace Rehearsal

def note (r : Rehearsal) (e : Effect) : Rehearsal := { r with effects := e :: r.effects }

def post (r : Rehearsal) (e : Event) : Rehearsal := { r with mailbox := r.mailbox ++ [e] }

/-- The cluster's answer to a request for its workers. -/
def listing (r : Rehearsal) : Except Failure (List Worker) :=
  match r.listFailure with
  | some f => .error f
  | none => .ok r.cluster.instances

/-- Carries out a command. -/
def perform (r : Rehearsal) : Command → Rehearsal
  | .listInstances => (r.note .listed).post (.instancesListed r.listing)
  | .ping w message => r.note (.pinged w message)
  | .destroy name => { r.note (.destroyed name) with cluster := r.cluster.destroy name }
  | .run w message ticket =>
    let r := r.note (.ran w.name message)
    match r.refusals.find? w.name with
    | some f => r.post (.undelivered w.name message.name ticket f)
    | none => r
  | .deleteCache w message => r.note (.deletedCache w.name message.session)
  | .post e => r.post e
  | .postAfter 0 e => r.post e
  | .postAfter delay e => { r with reminders := r.reminders ++ [(r.clock + delay, e)] }

/-- Nothing is handled any more. -/
def stop (r : Rehearsal) : Rehearsal := { r with stopped := true, mailbox := [], reminders := [] }

/-- Handles one event. -/
def handle (r : Rehearsal) (e : Event) : Rehearsal :=
  match r.coordinator.handle? ⟨"", 0⟩ e with
  | none => r.stop
  | some outcome =>
    let r := outcome.commands.foldl perform { r with coordinator := outcome.coordinator }
    let r := { r with reply := outcome.reply.or r.reply }
    if outcome.verdict.ends then r.stop else r

/-- Handles up to `limit` events. -/
def settleWithin : (limit : Nat) → Rehearsal → Rehearsal
  | 0, r => r
  | limit + 1, r =>
    match r.mailbox with
    | [] => r
    | e :: rest => settleWithin limit ({ r with mailbox := rest }.handle e)

/-- More events than follow from anything that can happen at once. -/
def eventLimit : Nat := 1000000

def settle (r : Rehearsal) : Rehearsal := r.settleWithin eventLimit

/-! ## What can happen -/

/-- The coordinator starts, and its server binds the port. -/
def start (settings : Settings) (workers : List Worker) (port : Nat) (reachable : Bool) :
    Rehearsal :=
  let turn := Coordinator.start settings
  let r : Rehearsal :=
    { coordinator := turn.coordinator, cluster := .ofList workers, reachable }
  (turn.commands.foldl perform (r.post (.serverReady port))).settle

/-- Sends the coordinator an event. -/
def send (r : Rehearsal) (e : Event) : Except Failure Rehearsal :=
  if r.stopped then .error (.internal .stopped) else .ok (r.post e).settle

/-- Sends the coordinator a request and waits for its answer. -/
def request (r : Rehearsal) (e : Event) : Except Failure (Reply × Rehearsal) :=
  match { r with reply := none }.send e with
  | .error f => .error f
  | .ok r =>
    match r.reply with
    | some reply => .ok (reply, r)
    | none => .error (.internal .stopped)

/-- A worker calls a method. -/
def call (r : Rehearsal) (method : String) (params : Json) : Except Failure Rehearsal :=
  match Server.accept (!r.stopped) method params with
  | .error f => .error f
  | .ok e => r.send e

/-- A worker connects and sends the bytes; absent if there is nothing to connect to. -/
def connect (r : Rehearsal) (bytes : List UInt8) : Option (List Wire.Response × Rehearsal) :=
  if r.reachable && !r.stopped then
    let (responses, events) := Server.converse true bytes
    some (responses, { r with mailbox := r.mailbox ++ events }.settle)
  else none

/-- Fetches the result of an execution from its worker, which serves in its place the name under
which it keeps it. -/
def fetchResult (r : Rehearsal) (name : ExecutionName) : Except Failure String × Rehearsal :=
  match r.request (.resolveResult name) with
  | .error f => (.error f, r)
  | .ok (.result w t, r) =>
    let r := r.note (.fetchedResult w.name t)
    match r.refusals.find? w.name with
    | some f => (.error f, r)
    | none => (.ok (w.name.text ++ "/" ++ t.text), r)
  | .ok (.refused f, r) => (.error f, r)
  | .ok (_, r) => (.error (.internal .stopped), r)

/-- Moves the clock, and posts the reminders whose time has come. -/
def advance (r : Rehearsal) (ms : Nat) : Rehearsal :=
  let clock := r.clock + ms
  let due := (r.reminders.filter fun t => t.1 ≤ clock).mergeSort fun a b => a.1 ≤ b.1
  { r with
    clock
    mailbox := r.mailbox ++ due.map Prod.snd
    reminders := r.reminders.filter fun t => clock < t.1 }.settle

/-- A worker disappears from the cluster. -/
def destroy (r : Rehearsal) (name : WorkerName) : Rehearsal :=
  { r with cluster := r.cluster.destroy name }

/-- The workers fail from now on whatever they are asked. -/
def refuse (r : Rehearsal) (refusals : List (WorkerName × Failure)) : Rehearsal :=
  { r with refusals := .ofList refusals }

/-- Listing the cluster fails from now on, or succeeds again. -/
def failListing (r : Rehearsal) (f : Option Failure) : Rehearsal := { r with listFailure := f }

/-! ## Looking -/

/-- The effects since the last look, in order. -/
def takeEffects (r : Rehearsal) : List Effect × Rehearsal :=
  (r.effects.reverse, { r with effects := [] })

def clusterView (r : Rehearsal) : Except Failure ClusterView :=
  if r.stopped then .error (.internal .stopped) else .ok r.coordinator.clusterView

end Rehearsal
end RenderFarm
