import RenderFarm.Proofs.Coordinator.Preparation
import RenderFarm.Proofs.Schedule.Shares

/-!
# RenderFarm.Proofs.Coordinator.Separation

The executions share the coordinator, but a report on a task of one of them changes nothing for the
others, also if that one ends with it.

* `Event.task?`: the task that an event reports on.
* `Spares x y c c'`: what was done for the execution `x` has left the execution `y` and the sessions
  of the others alone. An opening does so (`opening_reports`), and so does a notice (`tell_spares`).
* `Separate`: this, with the dispatch pass that may follow; `executions_separate` says that it is so
  for every report in every run in which the tickets do not run out and no name is given twice.
-/

namespace RenderFarm

/-- The task that the event reports on. -/
def Event.task? : Event → Option TaskName
  | .taskFinished _ n .. | .fetchingFinished _ n .. | .taskFailed _ n _
  | .dispatchFailed _ n .. | .probeTimeout n _ => some n
  | _ => none

namespace Coordinator

open Execution (tasksOf Action Call Sound)

variable {c c' : Coordinator} {m : Moment} {event : Event} {x y : ExecutionName} {k : Nat}

structure Spares (x y : ExecutionName) (c c' : Coordinator) : Prop where
  execution : c'.executions.find? y = c.executions.find? y
  sessions : ∀ s, (∀ e, c.executions.find? x = some e → e.session ≠ s) →
    c'.sessions.find? s = c.sessions.find? s
  schedule : c.schedule.Spares y c'.schedule

/-! ## Notices -/

theorem schedule_turns_spares (hne : x ≠ y) (now : Nat) {actions : List Action}
    (hts : ∀ t ∈ tasksOf actions, t.execution = x) (c : Coordinator) :
    c.schedule.Spares y (turns (act x now) actions c).coordinator.schedule := by
  induction actions generalizing c with
  | nil => exact .refl y c.schedule
  | cons a actions ih =>
    rw [show tasksOf (a :: actions) = tasksOf [a] ++ tasksOf actions from
      Execution.tasksOf_append [a] actions] at hts
    refine .trans ?_ (ih (fun t ht => hts t (List.mem_append_right _ ht)) _)
    cases a with
    | enqueue t =>
      have ht : t.execution = x := hts t List.mem_cons_self
      exact Schedule.spares_enqueue c.schedule (ht ▸ hne)
    | adjustTimeout timeout => exact Schedule.spares_retime c.schedule hne timeout now
    | finish | fail => exact Schedule.spares_dropExecution c.schedule hne

theorem tell_spares (hs : ∀ e, c.executions.find? x = some e → e.name = x ∧ Sound e)
    (hne : x ≠ y) (now : Nat) (call : Call) : Spares x y c (tell now c (x, call)) := by
  cases he : c.executions.find? x with
  | none =>
    have hsame : tell now c (x, call) = c := by simp only [tell, he]
    rw [hsame]
    exact ⟨rfl, fun _ _ => rfl, .refl y _⟩
  | some e =>
    obtain ⟨hname, hsound⟩ := hs e he
    have htold := told hname hsound he now call
    have haccounts := Execution.respond_accounts hsound call
    refine ⟨?_, fun s hother => ?_, ?_⟩
    · rw [htold.executions, OrderedMap.find?_insert, if_neg hne]
    · have hs : s ≠ e.session := fun hs => hother e he hs.symm
      rw [htold.sessions]
      split
      · simp [Sessions.find?_endExecution, hs]
      · rfl
    · have hname' := haccounts.terms.name.trans hname
      have hissued : ∀ t ∈ tasksOf (e.respond call).2, t.execution = x := fun t ht =>
        (haccounts.owner t ht).1.trans hname
      simp only [tell, he, follow, hname']
      exact schedule_turns_spares hne now hissued
        { c with executions := c.executions.insert x (e.respond call).1 }

/-! ## Openings -/

/-- A task is scheduled for the execution that its name tells. -/
theorem Agrees.execution_eq (h : Agrees [] c) {a : Assignment}
    (ha : c.schedule.inFlight.find? (.ofExecution x k) = some a) : a.task.execution = x := by
  have hmem := Schedule.mem_running ha
  rw [h.keyed.tag ha] at hmem
  obtain ⟨_, _, j, _, hj⟩ := h.known _ _ (List.mem_append_left _ (List.mem_append_right _ hmem))
  exact (TaskName.ofExecution_inj.1 hj).1.symm

/-- What the coordinator does first on a report on a task of `x`, and whom it tells. -/
structure Reports (x y : ExecutionName) (c : Coordinator) (o : Opening) : Prop where
  executions : o.coordinator.executions = c.executions
  sessions : o.coordinator.sessions = c.sessions
  schedule : c.schedule.Spares y o.coordinator.schedule
  notices : o.notices = [] ∨ ∃ call, o.notices = [(x, call)]

theorem Reports.still (hs : Still c c') : Reports x y c { coordinator := c' } :=
  ⟨hs.executions, hs.sessions, hs.schedule ▸ .refl y _, .inl rfl⟩

/-- A task of `x` is taken off its worker, and `x` is told. -/
theorem Reports.ended (h : Agrees [] c) (hne : x ≠ y) {a : Assignment} {call : Call}
    (ha : c.schedule.inFlight.find? (.ofExecution x k) = some a)
    (hexecutions : c'.executions = c.executions) (hsessions : c'.sessions = c.sessions)
    (hpending : c'.schedule.pending = c.schedule.pending)
    (hin : c'.schedule.inFlight = c.schedule.inFlight.erase (.ofExecution x k)) :
    Reports x y c { coordinator := c', notices := [(a.task.execution, call)] } := by
  have hx := h.execution_eq ha
  exact ⟨hexecutions, hsessions, Schedule.spares_erase ha (hx ▸ hne) hpending hin,
    .inr ⟨call, by rw [hx]⟩⟩

theorem opening_reports (h : Agrees [] c) (hev : event.task? = some (.ofExecution x k))
    (hne : x ≠ y) (m : Moment) : Reports x y c (c.opening m event) := by
  cases event with
  | taskFinished w n elapsed weight cached =>
    cases hev
    have hs := still_noteCaches c w cached
    simp only [opening, hs.schedule]
    split
    · exact .still hs
    · rename_i hc
      exact .ended h hne (Schedule.frees_complete hc).1 hs.executions hs.sessions
        (Schedule.pending_complete hc) (Schedule.inFlight_complete hc)
  | fetchingFinished w n elapsed cached =>
    cases hev
    have hs := still_noteCaches c w cached
    simp only [opening, hs.schedule]
    split
    · exact .still hs
    · rename_i a ha
      split
      · -- the task goes on, so only the notice is to be seen to
        exact ⟨hs.executions, hs.sessions, hs.schedule ▸ .refl y _,
          .inr ⟨_, by rw [h.execution_eq ha]⟩⟩
      · exact .still hs
  | taskFailed w n reason =>
    cases hev
    simp only [opening]
    split
    · exact .still (.refl c)
    · rename_i hc
      exact .ended h hne (Schedule.frees_complete hc).1 rfl rfl
        (Schedule.pending_complete hc) (Schedule.inFlight_complete hc)
  | dispatchFailed w n ticket reason =>
    cases hev
    simp only [opening]
    split
    · exact .still (.refl c)
    · rename_i hc
      obtain ⟨ha, rfl⟩ := Schedule.abort_some hc
      exact .ended h hne (Schedule.find?_of_current? ha) rfl rfl rfl rfl
  | probeTimeout n ticket =>
    cases hev
    simp only [opening]
    split
    · exact .still (.refl c)
    · exact .still (.refl c)
    · rename_i hc
      obtain ⟨ha, rfl⟩ := Schedule.expire_expired hc
      exact .ended h hne (Schedule.find?_of_current? ha) rfl rfl rfl rfl
  | _ => cases hev

theorem react_spares (h : Agrees [] c) (hev : event.task? = some (.ofExecution x k))
    (hne : x ≠ y) (m : Moment) : Spares x y c (c.react m event).coordinator := by
  have ho := opening_reports h hev hne m
  rw [react_eq]
  rcases ho.notices with hnone | ⟨call, hone⟩
  · rw [hnone]
    exact ⟨congrArg (·.find? y) ho.executions, fun s _ => congrArg (·.find? s) ho.sessions,
      ho.schedule⟩
  · have hsound : ∀ e, (c.opening m event).coordinator.executions.find? x = some e →
        e.name = x ∧ Sound e := by
      rw [ho.executions]
      exact h.sound x
    have ht := tell_spares hsound hne m.now call
    rw [hone]
    refine ⟨ht.execution.trans (congrArg (·.find? y) ho.executions), fun s hother => ?_,
      ho.schedule.trans ht.schedule⟩
    rw [← ho.executions] at hother
    exact (ht.sessions s hother).trans (congrArg (·.find? s) ho.sessions)

/-! ## Runs -/

/-- The event, after the past, has left the execution `y` and the sessions of executions other than
`x` as they were. What is on a worker stays there, and the line of `y` is the same apart from what
is dealt from its front. -/
structure Separate (settings : Settings) (x y : ExecutionName) (m : Moment) (event : Event)
    (past : List (Moment × Event)) : Prop where
  execution : (after settings ((m, event) :: past)).executions.find? y =
    (after settings past).executions.find? y
  sessions : ∀ s, (∀ e, (after settings past).executions.find? x = some e → e.session ≠ s) →
    (after settings ((m, event) :: past)).sessions.find? s =
      (after settings past).sessions.find? s
  running : ∀ n a, a.task.execution = y → (after settings past).schedule.inFlight.find? n = some a →
    (after settings ((m, event) :: past)).schedule.inFlight.find? n = some a
  waiting : ∃ dealt, (after settings past).schedule.lineOf y =
      dealt ++ (after settings ((m, event) :: past)).schedule.lineOf y ∧
    ∀ t ∈ dealt, ∃ a ∈ assigned settings ((m, event) :: past),
      a.task.gist = t.gist ∧ a.task.timeout = t.timeout ∧
      (after settings ((m, event) :: past)).schedule.inFlight.find? t.name = some a

/-- The pass that may follow a reaction deals from the front of every line. -/
theorem handle_serves (settings : Settings) {past : List (Moment × Event)}
    (hd : dispatches settings ((m, event) :: past) < Word.top)
    (hn : (stamps ((m, event) :: past)).Nodup) (y : ExecutionName) :
    Schedule.Serves y ((after settings past).react m event).coordinator.schedule
      (after settings ((m, event) :: past)).schedule
      (assigned settings ((m, event) :: past)) := by
  obtain ⟨hagrees, hroom⟩ := reacted_agrees settings hd hn
  simp only [after, handle_coordinator, assigned]
  split
  · rename_i hwakes
    have hnames := scheduled_names hagrees
    exact Schedule.serves_dispatch y hagrees.keyed hnames (hroom hwakes) _ m.now
  · exact .refl y _

/-- Executions do not interfere. -/
theorem executions_separate (settings : Settings) (past : List (Moment × Event)) (m : Moment)
    (event : Event) (x y : ExecutionName) (k : Nat)
    (hd : dispatches settings ((m, event) :: past) < Word.top)
    (hn : (stamps ((m, event) :: past)).Nodup)
    (hev : event.task? = some (.ofExecution x k)) (hne : x ≠ y) :
    Separate settings x y m event past := by
  have hagrees := (after_agrees settings (Nat.lt_of_le_of_lt (Nat.le_add_right _ _) hd)
    (stamps_tail hn)).1
  have hspares := react_spares hagrees hev hne m
  have hserves := handle_serves settings hd hn y
  have hpass : ∀ c : Coordinator, (c.handle m event).coordinator.executions =
      (c.react m event).coordinator.executions ∧ (c.handle m event).coordinator.sessions =
      (c.react m event).coordinator.sessions := by
    intro c
    rw [handle_coordinator]
    split <;> exact ⟨rfl, rfl⟩
  obtain ⟨hexecutions, hsessions⟩ := hpass (after settings past)
  refine ⟨?_, fun s hother => ?_, fun n a ha hrun => ?_, ?_⟩
  · rw [after, hexecutions]
    exact hspares.execution
  · rw [after, hsessions]
    exact hspares.sessions s hother
  · exact hserves.flights n a ((hspares.schedule.flights n a ha).2 hrun)
  · rw [← hspares.schedule.line]
    exact hserves.line

/-- Two workers and two executions. Both have a task on a worker, and both have tasks waiting. -/
def sharedRun : List (Moment × Event) :=
  [failed, finished "v" "execution7-3-task2", finished "w" "execution7-3-task1",
    execution "session7-2", execution "session7-1", session, session, pong "v", pong "w",
    listed].map fun e => (⟨"7", 0⟩, e)
where
  listed : Event :=
    .instancesListed (.ok [⟨⟨"w"⟩, "10.0.0.1", 5000, 9000⟩, ⟨⟨"v"⟩, "10.0.0.2", 5000, 9000⟩])
  pong (worker : String) : Event := .pong ⟨⟨worker⟩, [], []⟩
  session : Event := .createSession ⟨none, [], "p", "f"⟩
  execution (session : String) : Event := .createExecution ⟨⟨session⟩, none, 3, none⟩
  finished (worker task : String) : Event := .taskFinished ⟨worker⟩ ⟨task⟩ 20 none none
  failed : Event := .taskFailed ⟨"v"⟩ ⟨"execution7-4-task1"⟩ "out of memory"

/-- The second failure is one too many. -/
theorem executions_separate_sample :
    let settings := { sampleSettings with prioritizeReducing := false }
    let event : Event := .taskFailed ⟨"v"⟩ (.ofExecution ⟨"execution7-4"⟩ 2) "out of memory"
    let later := after settings ((⟨"7", 0⟩, event) :: sharedRun)
    Separate settings ⟨"execution7-4"⟩ ⟨"execution7-3"⟩ ⟨"7", 0⟩ event sharedRun ∧
    (later.executions.find? ⟨"execution7-4"⟩).map Execution.isTerminal = some true ∧
    (after settings sharedRun).waitingOf ⟨"execution7-3"⟩ =
      [⟨"execution7-3-task4"⟩, ⟨"execution7-3-task5"⟩] ∧
    later.waitingOf ⟨"execution7-3"⟩ = [⟨"execution7-3-task5"⟩] ∧
    later.runningOf ⟨"execution7-3"⟩ = [⟨"execution7-3-task3"⟩, ⟨"execution7-3-task4"⟩] := by
  refine ⟨executions_separate _ sharedRun _ _ _ _ 2 (by decide +kernel) (stamps_nodup (by decide))
    rfl (by decide), ?_, ?_, ?_, ?_⟩ <;> decide +kernel

end Coordinator
end RenderFarm
