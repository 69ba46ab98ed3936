import RenderFarm.OrderedMap
import RenderFarm.Worker

/-!
# RenderFarm.Fleet

The workers that the cluster lists, which of them are alive, and which of them hold the resources
of a session.

* `reconcile` starts a round: every listed worker is pinged, unless too many of its pings have
  gone unanswered; then it is condemned, and stays so until the cluster no longer lists it.
* `pong` brings a worker to life, `evict` takes it out until its next pong.
* `takeCached` deals the live holders of a session's resources in turn.
-/

namespace RenderFarm

inductive Liveness where
  /-- The number of pings that wait for an answer. -/
  | waiting (pings : Nat)
  /-- Too many pings went unanswered; the worker is never pinged again. -/
  | condemned
  deriving DecidableEq, Repr

/-- A listed worker. -/
structure Member where
  worker : Worker
  liveness : Liveness := .waiting 0
  /-- Whether the worker takes part in scheduling. -/
  registered : Bool := false
  deriving DecidableEq, Repr

/-- The pings that wait for an answer, unless the worker is condemned. -/
def Member.outstanding? (m : Member) : Option Nat :=
  match m.liveness with
  | .waiting n => some n
  | .condemned => none

structure Fleet where
  /-- The number of unanswered pings after which a worker is condemned. -/
  patience : Nat
  members : OrderedMap WorkerName Member
  /-- The holders of the resources of each tracked session; the one to use next is in front. -/
  caches : OrderedMap SessionName (List WorkerName)

namespace Fleet

def new (patience : Nat) : Fleet := ⟨patience, .empty, .empty⟩

/-- What a round asks for. -/
structure Round where
  pings : List Worker
  /-- The workers condemned in this round. -/
  condemned : List WorkerName
  /-- The registered workers that left in this round. -/
  removed : List WorkerName
  deriving DecidableEq, Repr

inductive PongOutcome where
  | registered
  | alive
  /-- The worker is unknown or condemned. -/
  | ignored
  deriving DecidableEq, Repr

/-! ## Queries -/

def isAlive (f : Fleet) (name : WorkerName) : Bool :=
  match f.members.find? name with
  | some m => m.registered
  | none => false

def live (f : Fleet) : List WorkerName :=
  (f.members.entries.filter fun e => e.2.registered).map Prod.fst

def worker? (f : Fleet) (name : WorkerName) : Option Worker :=
  (f.members.find? name).map Member.worker

/-- Whether a live worker holds the resources of the session. -/
def cacheWarm (f : Fleet) (session : SessionName) : Bool :=
  match f.caches.find? session with
  | some holders => holders.any f.isAlive
  | none => false

/-! ## Caches -/

def track (f : Fleet) (session : SessionName) : Fleet :=
  { f with caches := f.caches.insertNew session [] }

/-- Forgets the session and gives the workers that hold its resources. -/
def untrack (f : Fleet) (session : SessionName) : Fleet × List WorkerName :=
  ({ f with caches := f.caches.erase session }, (f.caches.find? session).getD [])

/-- Adds a holder at the back, unless it is there. -/
def addHolder (name : WorkerName) (holders : List WorkerName) : List WorkerName :=
  if name ∈ holders then holders else holders ++ [name]

/-- A worker has told which sessions it holds the resources of; this is its complete list. -/
def updateCaches (f : Fleet) (name : WorkerName) (sessions : List SessionName) : Fleet :=
  { f with caches := f.caches.mapValues fun session holders =>
      if session ∈ sessions then addHolder name holders else holders.erase name }

/-- The worker has just fetched the resources of the session. -/
def markCached (f : Fleet) (name : WorkerName) (session : SessionName) : Fleet :=
  match f.caches.find? session with
  | some holders => { f with caches := f.caches.insert session (addHolder name holders) }
  | none => f

/-- The workers no longer count as holders of anything. -/
def purge (f : Fleet) (names : List WorkerName) : Fleet :=
  { f with caches := f.caches.mapValues fun _ holders => holders.filter (· ∉ names) }

/-- Picks the live holder that was used least recently and moves it to the back. -/
def takeCached (f : Fleet) (session : SessionName) : Option WorkerName × Fleet :=
  match f.caches.find? session with
  | none => (none, f)
  | some holders =>
    match holders.find? f.isAlive with
    | none => (none, f)
    | some name =>
      (some name, { f with caches := f.caches.insert session (holders.erase name ++ [name]) })

/-! ## Liveness -/

/-- Drops the workers that are no longer listed; gives the registered ones among them. -/
def dropUnlisted (f : Fleet) (listed : OrderedMap WorkerName Worker) :
    Fleet × List WorkerName :=
  let gone := f.members.entries.filter fun e => !listed.contains e.1
  let kept := { f with members := f.members.filter fun name _ => listed.contains name }
  (kept.purge (gone.map Prod.fst), (gone.filter fun e => e.2.registered).map Prod.fst)

/-- One listed worker in a round: pinged once more, or condemned, or left as condemned. -/
def visit (patience : Nat) (m : Member) (listed : Worker) : Member :=
  match m.liveness with
  | .condemned => m
  | .waiting n =>
    if patience ≤ n then { m with liveness := .condemned, registered := false }
    else { m with worker := listed, liveness := .waiting (n + 1) }

/-- Goes through the listed workers in order. -/
def visitAll (patience : Nat) :
    List Worker → OrderedMap WorkerName Member → OrderedMap WorkerName Member × Round
  | [], ms => (ms, ⟨[], [], []⟩)
  | w :: ws, ms =>
    let m := (ms.find? w.name).getD { worker := w }
    let (ms', round) := visitAll patience ws (ms.insert w.name (visit patience m w))
    match m.liveness with
    | .condemned => (ms', round)
    | .waiting n =>
      if patience ≤ n then
        (ms', { round with
          condemned := w.name :: round.condemned
          removed := if m.registered then w.name :: round.removed else round.removed })
      else (ms', { round with pings := w :: round.pings })

/-- Starts a round with the workers that the cluster lists now; of a name listed twice the
later entry counts. -/
def reconcile (f : Fleet) (workers : List Worker) : Fleet × Round :=
  let listed := OrderedMap.ofList (workers.map fun w => (w.name, w))
  let (f, gone) := f.dropUnlisted listed
  let (members, round) := visitAll f.patience listed.values f.members
  ({ f with members }.purge round.condemned, { round with removed := gone ++ round.removed })

/-- A worker has answered, with the sessions whose resources it holds. -/
def pong (f : Fleet) (name : WorkerName) (sessions : List SessionName) : Fleet × PongOutcome :=
  match f.members.find? name with
  | none => (f, .ignored)
  | some m =>
    match m.liveness with
    | .condemned => (f, .ignored)
    | .waiting n =>
      let m' := { m with liveness := .waiting (n - 1), registered := true }
      let f := { f with members := f.members.insert name m' }
      (f.updateCaches name sessions, if m.registered then .alive else .registered)

/-- Takes the worker out of the live ones until its next pong; tells whether it was one. -/
def evict (f : Fleet) (name : WorkerName) : Fleet × Bool :=
  match f.members.find? name with
  | none => (f, false)
  | some m =>
    if m.registered then
      ({ f with members := f.members.insert name { m with registered := false } }, true)
    else (f, false)

end Fleet
end RenderFarm
