import RenderFarm.Proofs.Coordinator.Reactions
import RenderFarm.Proofs.Coordinator.Telling
import RenderFarm.Proofs.Schedule.Crew

/-!
# RenderFarm.Proofs.Coordinator.Opening

A reaction in two parts: the coordinator's own move, and what executions are told because of it.

* `opening`: the move, with the notices that are due; `ownCommands`, what it commands.
* `react_turn`, `react_eq`: a reaction is its opening, and then every notice is told.
* `Opens`: all that an opening can be, one constructor for each kind of move. An invariant of the
  coordinator is shown on these and on `tell`.
-/

namespace RenderFarm
namespace Coordinator

open Execution (Call)

structure Opening where
  coordinator : Coordinator
  notices : List Notice := []

def failure (c : Coordinator) (now : Nat) (reason : String) (t : Task) : Notice :=
  (t.execution, .fail t.name reason (c.context t.session now))

/-- The schedule follows the live workers, and the tasks of the others are lost. -/
def resync (c : Coordinator) (now : Nat) : Opening where
  coordinator := { c with schedule := (c.schedule.syncWorkers c.fleet.live).1 }
  notices := ((c.schedule.syncWorkers c.fleet.live).2.map Assignment.task).map
    (c.failure now "worker lost")

def opening (c : Coordinator) (m : Moment) : Event → Opening
  | .instancesListed (.ok workers) =>
    resync { c with fleet := (c.fleet.reconcile workers).1 } m.now
  | .pong report =>
    let (fleet, outcome) := c.fleet.pong report.worker report.cached
    match outcome with
    | .registered => resync { c with fleet } m.now
    | .alive | .ignored => { coordinator := { c with fleet } }
  | .taskFinished w n elapsed weight cached =>
    let c := c.noteCaches w cached
    match c.schedule.complete w n with
    | (_, none) => { coordinator := c }
    | (schedule, some a) =>
      { coordinator := { c with schedule }
        notices := [(a.task.execution,
          .finish ⟨n, w, elapsed, weight⟩ (c.context a.task.session m.now))] }
  | .fetchingFinished w n elapsed cached =>
    let c := c.noteCaches w cached
    match c.schedule.inFlight.find? n with
    | none => { coordinator := c }
    | some a =>
      if a.worker = w then
        let c := { c with fleet := c.fleet.markCached w a.task.session }
        { coordinator := c
          notices := [(a.task.execution, .fetched n elapsed (c.context a.task.session m.now))] }
      else { coordinator := c }
  | .taskFailed w n reason =>
    match c.schedule.complete w n with
    | (_, none) => { coordinator := c }
    | (schedule, some a) =>
      { coordinator := { c with schedule }, notices := [c.failure m.now reason a.task] }
  | .dispatchFailed w n ticket reason =>
    match c.schedule.abort n ticket with
    | (_, none) => { coordinator := c }
    | (schedule, some a) =>
      let c := { c with schedule }.evict w
      { coordinator := c, notices := [c.failure m.now reason a.task] }
  | .probeTimeout n ticket =>
    match c.schedule.expire n ticket m.now with
    | (_, .stale) | (_, .remaining _) => { coordinator := c }
    | (schedule, .expired a) =>
      let c := { c with schedule }.evict a.worker
      { coordinator := c, notices := [c.failure m.now "timeout" a.task] }
  | .createExecution r =>
    let (text, names) := c.names.next "execution" m.wallClock
    let name : ExecutionName := ⟨text⟩
    let c := { c with names }
    match c.sessions.beginExecution r name with
    | .error _ => { coordinator := c }
    | .ok (s, sessions) =>
      let c := { c with sessions }
      let e := Execution.create c.settings.executionPolicy name r.session r.parallel
        s.hasResources m.now
      { coordinator := { c with executions := c.executions.insert name e }
        notices := [(name, .start (c.context r.session m.now))] }
  | event => { coordinator := (c.react m event).coordinator }

/-- The commands of the coordinator's own move. -/
def ownCommands (c : Coordinator) (m : Moment) : Event → List Command
  | .reconcileWorkers => c.reconcileWorkers.commands
  | .instancesListed (.ok workers) =>
    let (fleet, round) := c.fleet.reconcile workers
    { c with fleet }.roundCommands round
  | .probeTimeout n ticket =>
    match (c.schedule.expire n ticket m.now).2 with
    | .remaining delay => [.postAfter delay (.probeTimeout n ticket)]
    | .expired _ | .stale => []
  | .deleteSession name owner => (c.deleteSession name owner).commands
  | _ => []

/-! ## Reactions are openings -/

theorem inform_eq {report : Execution → Execution.Context → Execution × List Execution.Action}
    {call : Call} (c : Coordinator) (now : Nat) (x : ExecutionName) (session : SessionName)
    (h : ∀ e : Execution, report e (c.context session now) = e.respond call) :
    c.inform now x session report = telling now c (x, call) := by
  unfold inform telling
  cases c.executions.find? x with
  | none => rfl
  | some e => simp only [h]

theorem failTask_eq (now : Nat) (reason : String) (c : Coordinator) (t : Task) :
    failTask now reason c t = telling now c (c.failure now reason t) :=
  inform_eq c now t.execution t.session fun _ => rfl

/-- What the tasks are told depends on the fleet alone, and no notice changes that. -/
theorem turns_failTask (now : Nat) (reason : String) (c : Coordinator) (ts : List Task)
    {d : Coordinator} (hd : d.fleet = c.fleet) :
    turns (failTask now reason) ts d = turns (telling now) (ts.map (c.failure now reason)) d := by
  induction ts generalizing d with
  | nil => rfl
  | cons t ts ih =>
    have hsame : d.failure now reason t = c.failure now reason t := by
      simp only [failure, context, hd]
    have hd' : (telling now d (c.failure now reason t)).coordinator.fleet = c.fleet := by
      rw [telling_coordinator]
      exact (tell_frame now d _).1.trans hd
    simp only [List.map_cons, turns, Turn.andThen, failTask_eq, hsame]
    rw [ih hd']

theorem syncWorkers_eq (c : Coordinator) (now : Nat) :
    c.syncWorkers now = turns (telling now) (c.resync now).notices (c.resync now).coordinator :=
  turns_failTask now "worker lost" c _ rfl

theorem start_eq {c : Coordinator} {e : Execution} (hs : Execution.Sound e) (now : Nat)
    (ctx : Execution.Context) :
    c.follow now (e.start ctx) =
      telling now { c with executions := c.executions.insert e.name e } (e.name, .start ctx) := by
  have hkept := (Execution.respond_accounts hs (.start ctx)).terms.name
  simp only [telling, OrderedMap.find?_insert, if_true]
  exact (follow_insert c now e _ hkept).symm

/-- A reaction: the opening, and a turn for every notice. -/
theorem react_turn (c : Coordinator) (m : Moment) (event : Event) :
    let t := turns (telling m.now) (c.opening m event).notices (c.opening m event).coordinator
    (c.react m event).coordinator = t.coordinator ∧
    (c.react m event).commands = c.ownCommands m event ++ t.commands := by
  have hturn : ∀ {t u : Turn}, t = u → t.coordinator = u.coordinator ∧ t.commands = u.commands :=
    fun h => ⟨congrArg _ h, congrArg _ h⟩
  have hone : ∀ (d : Coordinator) (notice : Notice), telling m.now d notice =
      turns (telling m.now) [notice] d := fun d notice => by
    simp [turns, Turn.andThen]
  cases event with
  | createSession | observeCluster | shutdown => exact ⟨rfl, rfl⟩
  | reconcileWorkers => exact ⟨rfl, rfl⟩
  | serverReady port =>
    simp only [react, serverReady, opening, ownCommands]
    split <;> exact ⟨rfl, rfl⟩
  | getExecution name =>
    simp only [react, getExecution, opening, ownCommands]
    split <;> exact ⟨rfl, rfl⟩
  | resolveResult name =>
    simp only [react, resolveResult, opening, ownCommands]
    split <;> exact ⟨rfl, rfl⟩
  | deleteSession name owner =>
    exact ⟨rfl, (List.append_nil _).symm⟩
  | instancesListed listing =>
    cases listing with
    | error f => exact ⟨rfl, rfl⟩
    | ok workers =>
      have h := hturn (syncWorkers_eq { c with fleet := (c.fleet.reconcile workers).1 } m.now)
      exact ⟨h.1, congrArg (_ ++ ·) h.2⟩
  | pong report =>
    simp only [react, pong, opening, ownCommands]
    cases (c.fleet.pong report.worker report.cached).2 with
    | registered => exact hturn (syncWorkers_eq _ m.now)
    | alive | ignored => exact ⟨rfl, rfl⟩
  | taskFinished w n elapsed weight cached =>
    simp only [react, taskFinished, opening, ownCommands]
    rcases (c.noteCaches w cached).schedule.complete w n with ⟨s, _ | a⟩
    · exact ⟨rfl, rfl⟩
    · exact hturn ((inform_eq { c.noteCaches w cached with schedule := s } m.now a.task.execution
        a.task.session fun _ => rfl).trans (hone _ _))
  | fetchingFinished w n elapsed cached =>
    simp only [react, fetchingFinished, opening, ownCommands]
    cases (c.noteCaches w cached).schedule.inFlight.find? n with
    | none => exact ⟨rfl, rfl⟩
    | some a =>
      by_cases hw : a.worker = w
      · simp only [hw, if_true]
        exact hturn ((inform_eq { c.noteCaches w cached with
          fleet := (c.noteCaches w cached).fleet.markCached w a.task.session } m.now
          a.task.execution a.task.session fun _ => rfl).trans (hone _ _))
      · simp only [hw, if_false]
        exact ⟨rfl, rfl⟩
  | taskFailed w n reason =>
    simp only [react, taskFailed, opening, ownCommands]
    rcases c.schedule.complete w n with ⟨s, _ | a⟩
    · exact ⟨rfl, rfl⟩
    · exact hturn ((failTask_eq m.now reason { c with schedule := s } a.task).trans (hone _ _))
  | dispatchFailed w n ticket reason =>
    simp only [react, dispatchFailed, opening, ownCommands]
    rcases c.schedule.abort n ticket with ⟨s, _ | a⟩
    · exact ⟨rfl, rfl⟩
    · exact hturn ((failTask_eq m.now reason ({ c with schedule := s }.evict w) a.task).trans
        (hone _ _))
  | probeTimeout n ticket =>
    simp only [react, probeTimeout, opening, ownCommands]
    rcases c.schedule.expire n ticket m.now with ⟨s, a | _ | _⟩
    · exact hturn ((failTask_eq m.now "timeout" ({ c with schedule := s }.evict a.worker)
        a.task).trans (hone _ _))
    · exact ⟨rfl, rfl⟩
    · exact ⟨rfl, rfl⟩
  | createExecution r =>
    simp only [react, createExecution, opening, ownCommands]
    generalize hname : ExecutionName.mk (c.names.next "execution" m.wallClock).1 = name
    cases c.sessions.beginExecution r name with
    | error f => exact ⟨rfl, rfl⟩
    | ok begun =>
      obtain ⟨s, sessions⟩ := begun
      have hsound := Execution.create_sound c.settings.executionPolicy name r.session r.parallel
        s.hasResources m.now
      exact hturn ((start_eq hsound m.now _).trans (hone _ _))

theorem react_eq (c : Coordinator) (m : Moment) (event : Event) :
    (c.react m event).coordinator =
      tellAll m.now (c.opening m event).coordinator (c.opening m event).notices :=
  (react_turn c m event).1.trans (turns_telling m.now _ _)

/-! ## What an opening can be -/

/-- Nothing changes but the listener and what is noted about caches. -/
structure Still (c c' : Coordinator) : Prop where
  settings : c'.settings = c.settings
  members : c'.fleet.members = c.fleet.members
  schedule : c'.schedule = c.schedule
  sessions : c'.sessions = c.sessions
  executions : c'.executions = c.executions
  names : c'.names = c.names

theorem Still.refl (c : Coordinator) : Still c c := ⟨rfl, rfl, rfl, rfl, rfl, rfl⟩

theorem still_noteCaches (c : Coordinator) (w : WorkerName) (cached : Option (List SessionName)) :
    Still c (c.noteCaches w cached) := by
  cases cached <;> exact ⟨rfl, rfl, rfl, rfl, rfl, rfl⟩

inductive Opens (c : Coordinator) (m : Moment) : Event → Opening → Prop where
  | still {event : Event} {c' : Coordinator} (hev : event.asksName = false) (h : Still c c') :
      Opens c m event { coordinator := c' }
  | heard {report : Wire.Pong} (h : (c.fleet.pong report.worker report.cached).2 ≠ .registered) :
      Opens c m (.pong report)
        { coordinator := { c with fleet := (c.fleet.pong report.worker report.cached).1 } }
  | resynced {event : Event} {fleet : Fleet} (hev : event.asksName = false)
      (h : Fleet.Orderly c.fleet.members → Fleet.Orderly fleet.members) :
      Opens c m event (resync { c with fleet } m.now)
  | finished {w : WorkerName} {n : TaskName} {elapsed : Nat} {weight : Option Nat}
      {cached : Option (List SessionName)} {c' : Coordinator} {s : Schedule} {a : Assignment}
      (hs : Still c c') (h : c.schedule.complete w n = (s, some a)) :
      Opens c m (.taskFinished w n elapsed weight cached)
        { coordinator := { c' with schedule := s }
          notices := [(a.task.execution,
            .finish ⟨n, w, elapsed, weight⟩ (c'.context a.task.session m.now))] }
  | fetched {w : WorkerName} {n : TaskName} {elapsed : Nat} {cached : Option (List SessionName)}
      {c' : Coordinator} {a : Assignment} (hs : Still c c')
      (h : c.schedule.inFlight.find? n = some a) :
      Opens c m (.fetchingFinished w n elapsed cached)
        { coordinator := c'
          notices := [(a.task.execution, .fetched n elapsed (c'.context a.task.session m.now))] }
  | failed {w : WorkerName} {n : TaskName} {reason : String} {s : Schedule} {a : Assignment}
      (h : c.schedule.complete w n = (s, some a)) :
      Opens c m (.taskFailed w n reason)
        { coordinator := { c with schedule := s }, notices := [c.failure m.now reason a.task] }
  | undelivered {w : WorkerName} {n : TaskName} {ticket : Ticket} {reason : String}
      {a : Assignment} (h : c.schedule.current? n ticket = some a) :
      Opens c m (.dispatchFailed w n ticket reason)
        { coordinator := { c with schedule := c.schedule.release n a.worker }.evict w
          notices := [({ c with schedule := c.schedule.release n a.worker }.evict w).failure m.now
            reason a.task] }
  | timedOut {n : TaskName} {ticket : Ticket} {a : Assignment}
      (h : c.schedule.current? n ticket = some a) :
      Opens c m (.probeTimeout n ticket)
        { coordinator := { c with schedule := c.schedule.release n a.worker }.evict a.worker
          notices := [({ c with schedule := c.schedule.release n a.worker }.evict a.worker).failure
            m.now "timeout" a.task] }
  | joined {r : SessionRequest} :
      Opens c m (.createSession r)
        { coordinator := (c.createSession m.wallClock r).coordinator }
  | parted {name : SessionName} {owner : Option String} {s : Session} {sessions : Sessions}
      (h : c.sessions.delete name owner = .ok (s, sessions)) :
      Opens c m (.deleteSession name owner)
        { coordinator := { c with sessions, fleet := (c.fleet.untrack name).1 } }
  | refused {r : ExecutionRequest} :
      Opens c m (.createExecution r)
        { coordinator := { c with names := (c.names.next "execution" m.wallClock).2 } }
  | begun {r : ExecutionRequest} {s : Session} {sessions : Sessions} {e : Execution}
      (h : c.sessions.beginExecution r (c.upcomingName m) = .ok (s, sessions))
      (he : e = .create c.settings.executionPolicy (c.upcomingName m) r.session r.parallel
        s.hasResources m.now) :
      Opens c m (.createExecution r)
        { coordinator := { c with
            names := (c.names.next "execution" m.wallClock).2
            sessions
            executions := c.executions.insert (c.upcomingName m) e }
          notices := [(c.upcomingName m, .start (c.context r.session m.now))] }

theorem opens (c : Coordinator) (m : Moment) (event : Event) :
    Opens c m event (c.opening m event) := by
  cases event with
  | serverReady port =>
    simp only [opening, react, serverReady]
    split <;> exact .still rfl ⟨rfl, rfl, rfl, rfl, rfl, rfl⟩
  | reconcileWorkers | observeCluster | shutdown => exact .still rfl (.refl c)
  | getExecution name =>
    simp only [opening, react, getExecution]
    split <;> exact .still rfl (.refl c)
  | resolveResult name =>
    simp only [opening, react, resolveResult]
    split <;> exact .still rfl (.refl c)
  | createSession r => exact .joined
  | instancesListed listing =>
    cases listing with
    | error f => exact .still rfl (.refl c)
    | ok workers => exact .resynced rfl fun h => Fleet.orderly_reconcile h workers
  | pong report =>
    simp only [opening]
    split
    · exact .resynced rfl fun h => Fleet.orderly_pong h report.worker report.cached
    all_goals
      rename_i heq
      exact .heard (by simp [heq])
  | taskFinished w n elapsed weight cached =>
    have hs := still_noteCaches c w cached
    simp only [opening, hs.schedule]
    split
    · exact .still rfl hs
    · rename_i hc
      exact .finished hs hc
  | fetchingFinished w n elapsed cached =>
    have hs := still_noteCaches c w cached
    simp only [opening, hs.schedule]
    split
    · exact .still rfl hs
    · rename_i a ha
      split
      · refine .fetched ⟨hs.settings, ?_, rfl, hs.sessions, hs.executions, hs.names⟩ ha
        exact (Fleet.members_markCached _ _ _).trans hs.members
      · exact .still rfl hs
  | taskFailed w n reason =>
    simp only [opening]
    split
    · exact .still rfl (.refl c)
    · rename_i hc
      exact .failed hc
  | dispatchFailed w n ticket reason =>
    simp only [opening]
    split
    · exact .still rfl (.refl c)
    · rename_i hc
      obtain ⟨ha, rfl⟩ := Schedule.abort_some hc
      exact .undelivered ha
  | probeTimeout n ticket =>
    simp only [opening]
    split
    · exact .still rfl (.refl c)
    · exact .still rfl (.refl c)
    · rename_i hc
      obtain ⟨ha, rfl⟩ := Schedule.expire_expired hc
      exact .timedOut ha
  | deleteSession name owner =>
    simp only [opening, react, deleteSession]
    split
    · exact .still rfl (.refl c)
    · rename_i hd
      exact .parted hd
  | createExecution r =>
    simp only [opening]
    split
    · exact .refused
    · rename_i hb
      exact .begun hb rfl

/-! ## What an opening leaves of the schedule -/

/-- An opening takes tasks off their workers, and gives out no ticket. -/
theorem opening_flights (c : Coordinator) (m : Moment) (event : Event) :
    (c.opening m event).coordinator.schedule.nextTicket = c.schedule.nextTicket ∧
    ∀ n a, (c.opening m event).coordinator.schedule.inFlight.find? n = some a →
      c.schedule.inFlight.find? n = some a := by
  have hopens := opens c m event
  generalize c.opening m event = o at hopens
  cases hopens with
  | still _ hs | fetched hs =>
    rw [hs.schedule]
    exact ⟨rfl, fun _ _ ha => ha⟩
  | heard | joined | parted | refused | begun => exact ⟨rfl, fun _ _ ha => ha⟩
  | resynced =>
    exact ⟨(Schedule.frees_syncWorkers c.schedule _).tickets,
      fun _ _ ha => (Schedule.find?_syncWorkers ha).1⟩
  | finished _ hc | failed hc =>
    exact ⟨(Schedule.frees_complete hc).2.tickets, fun _ _ ha => Schedule.find?_complete hc ha⟩
  | undelivered | timedOut => exact ⟨rfl, fun _ _ ha => Schedule.find?_release ha⟩

theorem opening_pending (c : Coordinator) (m : Moment) (event : Event) :
    (c.opening m event).coordinator.schedule.pending = c.schedule.pending := by
  have hopens := opens c m event
  generalize c.opening m event = o at hopens
  cases hopens with
  | still _ hs | fetched hs => rw [hs.schedule]
  | heard | joined | parted | refused | begun | undelivered | timedOut => rfl
  | resynced => exact Schedule.pending_syncWorkers c.schedule _
  | finished _ hc | failed hc => exact Schedule.pending_complete hc

theorem opening_queue (c : Coordinator) (m : Moment) (event : Event) :
    (c.opening m event).coordinator.schedule.queue = c.schedule.queue :=
  congrArg (List.map Task.gist) (opening_pending c m event)

/-! ## What an opening leaves of the fleet -/

theorem opening_orderly {c : Coordinator} (h : Fleet.Orderly c.fleet.members) (m : Moment)
    (event : Event) : Fleet.Orderly (c.opening m event).coordinator.fleet.members := by
  have hopens := opens c m event
  generalize c.opening m event = o at hopens
  cases hopens with
  | still _ hs | finished hs | fetched hs => exact hs.members ▸ h
  | heard => exact Fleet.orderly_pong h _ _
  | resynced _ hf => exact hf h
  | undelivered | timedOut => exact Fleet.orderly_evict h _
  | failed | joined | parted | refused | begun => exact h

end Coordinator
end RenderFarm
