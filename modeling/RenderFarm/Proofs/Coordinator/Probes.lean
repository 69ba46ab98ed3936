import RenderFarm.Proofs.Coordinator.Backing
import RenderFarm.Proofs.Execution.Actions
import RenderFarm.Proofs.Execution.Timeouts

/-!
# RenderFarm.Proofs.Coordinator.Probes

Which timers a command sets, and what else changes when it does.

* `timersOf now cmds`: the timers that the commands set at the time.
* `respond_adjusts`: an execution adjusts its timeout at most once.
* `telling_adjusts`: what it is told leaves all assignments as they are and sets no timer, or gives
  a new timeout and a timer to each of its producing tasks that run.
* `timersOf_ownCommands`, `timersOf_dispatch`: the timers of an event and of a dispatch pass.
-/

namespace RenderFarm

/-- A timer that has been set, for the attempt with the ticket. -/
structure Timer where
  due : Nat
  task : TaskName
  ticket : Ticket
  deriving DecidableEq, Repr

def Timer.about (n : TaskName) (ticket : Ticket) (T : Timer) : Bool :=
  T.task = n && T.ticket = ticket

/-- The timer that is set when the task is sent. -/
def Assignment.timer (now : Nat) (a : Assignment) : Timer :=
  ⟨now + a.task.timeout, a.task.name, a.ticket⟩

theorem Timer.about_iff {T : Timer} {n : TaskName} {ticket : Ticket} :
    T.about n ticket = true ↔ T.task = n ∧ T.ticket = ticket := by
  simp [about]

def Command.timer? (now : Nat) : Command → Option Timer
  | .postAfter delay (.probeTimeout n ticket) => some ⟨now + delay, n, ticket⟩
  | _ => none

def Event.isProbe : Event → Bool
  | .probeTimeout _ _ => true
  | _ => false

def timersOf (now : Nat) (cmds : List Command) : List Timer := cmds.filterMap (Command.timer? now)

@[simp] theorem timersOf_nil (now : Nat) : timersOf now [] = [] := rfl

@[simp] theorem timersOf_append (now : Nat) (cmds cmds' : List Command) :
    timersOf now (cmds ++ cmds') = timersOf now cmds ++ timersOf now cmds' :=
  List.filterMap_append

theorem timersOf_eq_nil {now : Nat} {cmds : List Command}
    (h : ∀ cmd ∈ cmds, cmd.timer? now = none) : timersOf now cmds = [] :=
  List.filterMap_eq_nil_iff.2 h

/-! ## Adjustments of an execution -/

namespace Execution

/-- A call adjusts the timeout first of all, and only if no call before it has. -/
theorem respond_adjusts (e : Execution) (call : Call) :
    ((∀ a ∈ (e.respond call).2, a.adjusts = false) ∧
      (e.timeoutAdapted = true → (e.respond call).1.timeoutAdapted = true)) ∨
    (e.timeoutAdapted = false ∧ (e.respond call).1.timeoutAdapted = true ∧
      ∃ timeout rest, (e.respond call).2 = .adjustTimeout timeout :: rest ∧
        ∀ a ∈ rest, a.adjusts = false) := by
  have hretimed := respond_retimed e call
  cases hchange : e.respond call with
  | mk e' actions =>
    rw [hchange] at hretimed
    cases hretimed with
    | kept h hnone => exact .inl ⟨hnone, h.adapted.trans⟩
    | adapted hbefore _ hafter _ _ hnone => exact .inr ⟨hbefore, hafter, _, _, rfl, hnone⟩

end Execution

/-! ## A new timeout for an execution -/

namespace Schedule

variable {s : Schedule} {x : ExecutionName} {timeout now : Nat} {n : TaskName} {a : Assignment}

/-- The timers that come of a new timeout. -/
def probeTimers (s : Schedule) (x : ExecutionName) (timeout now : Nat) : List Timer :=
  (s.retime x timeout now).2.map fun p => ⟨now + p.delay, p.task, p.ticket⟩

theorem find?_retime (h : (s.retime x timeout now).1.inFlight.find? n = some a) :
    ∃ b, s.inFlight.find? n = some b ∧ a = { b with task := retimed x timeout b.task } := by
  simp only [retime, OrderedMap.find?_mapValues] at h
  obtain ⟨b, hb, rfl⟩ := Option.map_eq_some_iff.1 h
  exact ⟨b, hb, rfl⟩

/-- A timer for every producing task of the execution that runs. -/
theorem mem_probeTimers {T : Timer} : T ∈ s.probeTimers x timeout now ↔
    ∃ n a, s.inFlight.find? n = some a ∧ (a.task.execution = x ∧ a.task.kind = .producing) ∧
      T = ⟨now + (timeout - (now - a.since)), a.task.name, a.ticket⟩ := by
  simp only [probeTimers, retime, List.map_map, List.mem_map, List.mem_filter,
    OrderedMap.mem_values_iff, decide_eq_true_eq, Function.comp_apply]
  constructor
  · rintro ⟨a, ⟨⟨n, ha⟩, hx⟩, rfl⟩
    exact ⟨n, a, ha, hx, rfl⟩
  · rintro ⟨n, a, ha, hx, rfl⟩
    exact ⟨a, ⟨⟨n, ha⟩, hx⟩, rfl⟩

theorem countP_probeTimers_le (hk : s.Keyed) (n : TaskName) (ticket : Ticket) :
    (s.probeTimers x timeout now).countP (·.about n ticket) ≤ 1 := by
  have hnames : s.inFlight.values.map (fun a => a.task.name) = s.inFlight.keys := by
    rw [← running_keys hk]
    simp [running, Function.comp_def, Task.tag]
  have hone : s.inFlight.keys.count n ≤ 1 := List.nodup_iff_count_le_one.1 s.inFlight.nodup n
  have hle : (s.probeTimers x timeout now).countP (·.about n ticket) ≤
      s.inFlight.values.countP fun a => a.task.name == n := by
    simp only [probeTimers, retime, List.map_map, List.countP_map]
    refine Nat.le_trans (List.countP_mono_left fun a _ ha => ?_) List.filter_sublist.countP_le
    have := Timer.about_iff.1 ha
    exact beq_iff_eq.2 this.1
  rw [← hnames, List.count_eq_countP, List.countP_map] at hone
  exact Nat.le_trans hle hone

theorem countP_probeTimers_eq_zero (hk : s.Keyed) (ha : s.inFlight.find? n = some a)
    (hx : ¬ (a.task.execution = x ∧ a.task.kind = .producing)) (ticket : Ticket) :
    (s.probeTimers x timeout now).countP (·.about n ticket) = 0 := by
  refine List.countP_eq_zero.2 fun T hT habout => ?_
  obtain ⟨n', b, hb, hbx, rfl⟩ := mem_probeTimers.1 hT
  have hname : b.task.name = n := (Timer.about_iff.1 habout).1
  have hkey : b.task.name = n' := hk n' b (OrderedMap.mem_entries_iff.2 hb)
  rw [← hkey, hname, ha] at hb
  cases hb
  exact hx hbx

end Schedule

namespace Coordinator

open Execution (Call Action)

variable {c : Coordinator} {m : Moment} {event : Event} {now : Nat}

/-! ## What an execution is told -/

theorem inFlight_enqueue (s : Schedule) (t : Task) : (s.enqueue t).inFlight = s.inFlight := by
  unfold Schedule.enqueue
  split <;> rfl

theorem turns_unadjusted (x : ExecutionName) (now : Nat) (c : Coordinator) {actions : List Action}
    (ha : ∀ a ∈ actions, a.adjusts = false) :
    (turns (act x now) actions c).commands = [] ∧
    (turns (act x now) actions c).coordinator.schedule.inFlight = c.schedule.inFlight := by
  induction actions generalizing c with
  | nil => exact ⟨rfl, rfl⟩
  | cons a actions ih =>
    obtain ⟨hcommands, hflights⟩ := ih (act x now c a).coordinator
      fun b hb => ha b (List.mem_cons_of_mem _ hb)
    have hact : (act x now c a).commands = [] ∧
        (act x now c a).coordinator.schedule.inFlight = c.schedule.inFlight := by
      cases a with
      | enqueue t => exact ⟨rfl, inFlight_enqueue _ t⟩
      | adjustTimeout => cases ha _ List.mem_cons_self
      | finish | fail => exact ⟨rfl, rfl⟩
    simp only [turns, Turn.andThen]
    exact ⟨by rw [hact.1, hcommands, List.nil_append], hflights.trans hact.2⟩

/-- An execution is told something: the assignments stay as they are, or its producing tasks get a
new timeout, which happens once. -/
theorem telling_adjusts {x : ExecutionName} {e : Execution} (hname : e.name = x)
    (hs : Execution.Sound e) (he : c.executions.find? x = some e) (now : Nat) (call : Call) :
    ((telling now c (x, call)).commands = [] ∧
      (telling now c (x, call)).coordinator.schedule.inFlight = c.schedule.inFlight ∧
      (e.timeoutAdapted = true → (e.respond call).1.timeoutAdapted = true)) ∨
    (e.timeoutAdapted = false ∧ (e.respond call).1.timeoutAdapted = true ∧
      ∃ timeout, (telling now c (x, call)).commands =
          (c.schedule.retime x timeout now).2.map probeCommand ∧
        (telling now c (x, call)).coordinator.schedule.inFlight =
          (c.schedule.retime x timeout now).1.inFlight) := by
  have hname' := (Execution.respond_accounts hs call).terms.name.trans hname
  simp only [telling, he, follow, hname']
  rcases Execution.respond_adjusts e call with ⟨hnone, hkept⟩ | ⟨hbefore, hafter, timeout, rest,
    hactions, hrest⟩
  · obtain ⟨hcommands, hflights⟩ := turns_unadjusted x now
      { c with executions := c.executions.insert x (e.respond call).1 } hnone
    exact .inl ⟨hcommands, hflights, hkept⟩
  · let c₁ := { c with executions := c.executions.insert x (e.respond call).1 }
    obtain ⟨hcommands, hflights⟩ := turns_unadjusted x now
      (act x now c₁ (.adjustTimeout timeout)).coordinator hrest
    refine .inr ⟨hbefore, hafter, timeout, ?_⟩
    rw [hactions]
    simp only [turns, Turn.andThen]
    exact ⟨by rw [hcommands, List.append_nil]; rfl, hflights⟩

theorem timersOf_probes (s : Schedule) (x : ExecutionName) (timeout now : Nat) :
    timersOf now ((s.retime x timeout now).2.map probeCommand) = s.probeTimers x timeout now := by
  unfold Schedule.probeTimers
  induction (s.retime x timeout now).2 with
  | nil => rfl
  | cons p probes ih => exact congrArg (_ :: ·) ih

/-! ## Events and dispatch passes -/

/-- The timer that is set again because it was early. -/
def rearmed (c : Coordinator) (now : Nat) (n : TaskName) (ticket : Ticket) : List Timer :=
  match (c.schedule.expire n ticket now).2 with
  | .remaining delay => [⟨now + delay, n, ticket⟩]
  | .expired _ | .stale => []

theorem timersOf_probeTimeout (c : Coordinator) (m : Moment) (n : TaskName) (ticket : Ticket) :
    timersOf m.now (c.ownCommands m (.probeTimeout n ticket)) = c.rearmed m.now n ticket := by
  simp only [ownCommands, rearmed]
  cases (c.schedule.expire n ticket m.now).2 <;> rfl

/-- Apart from that timer, the coordinator sets none of its own. -/
theorem timersOf_ownCommands (hev : event.isProbe = false) :
    timersOf m.now (c.ownCommands m event) = [] := by
  refine timersOf_eq_nil fun cmd hc => ?_
  cases event with
  | probeTimeout n ticket => cases hev
  | reconcileWorkers =>
    simp only [ownCommands, reconcileWorkers, List.mem_cons, List.not_mem_nil, or_false] at hc
    rcases hc with rfl | rfl <;> rfl
  | instancesListed listing =>
    cases listing with
    | error f => cases hc
    | ok workers =>
      rcases List.mem_append.1 hc with hc | hc
      · obtain ⟨w, _, rfl⟩ := List.mem_map.1 hc
        rfl
      · split at hc
        · obtain ⟨w, _, rfl⟩ := List.mem_map.1 hc
          rfl
        · cases hc
  | deleteSession name owner =>
    simp only [ownCommands, deleteSession] at hc
    split at hc
    · cases hc
    · obtain ⟨w, _, rfl⟩ := List.mem_map.1 hc
      rfl
  | _ => cases hc

/-- A pass that sends all its assignments sets one timer for each. -/
theorem timersOf_dispatch (h : Ready c) {as : List Assignment}
    (hd : Schedule.Dealt c.schedule.pending c.schedule c.fleet as
      (c.schedule.dispatch c.fleet now)) :
    timersOf now (dispatch now c).commands = as.map (Assignment.timer now) := by
  have hcommands : (dispatch now c).commands = as.flatMap (dispatch now c).coordinator.deliver := by
    show ((c.schedule.dispatch c.fleet now).assignments.getD []).flatMap _ = _
    rw [(hd.all h.room).1]
    rfl
  have hprepared : ∀ a ∈ as, ∃ w message,
      (dispatch now c).coordinator.prepare a = .ok (w, message) := fun a => h.prepared hd
  rw [hcommands]
  generalize (dispatch now c).coordinator = d at hprepared
  clear hd hcommands
  induction as with
  | nil => rfl
  | cons a as ih =>
    obtain ⟨w, message, hok⟩ := hprepared a List.mem_cons_self
    have hrest := ih fun b hb => hprepared b (List.mem_cons_of_mem _ hb)
    rw [List.flatMap_cons, timersOf_append, hrest]
    simp only [deliver, hok]
    rfl

end Coordinator
end RenderFarm
