import RenderFarm.Proofs.Coordinator.Staffing

/-!
# RenderFarm.Proofs.Coordinator.WorkConserving

No task waits while a worker is idle.

* `Saturated s`: the queue is empty, or no worker is idle.
* `saturated_dispatch`: every dispatch pass that finds enough tickets ends so.
* `react_asleep`: an event after which there is no pass leaves the schedule as it was.
* `work_conserving`: so it is after every event of every run in which the tickets do not run out.
-/

namespace RenderFarm

namespace Schedule

def Saturated (s : Schedule) : Prop := s.pending = [] ∨ s.idle = []

theorem saturated_dispatch {s : Schedule}
    (hroom : s.nextTicket + min s.pending.length s.idle.length ≤ Word.top) (f : Fleet) (now : Nat) :
    (s.dispatch f now).schedule.Saturated := by
  obtain ⟨as, hd⟩ := dealt_dispatch s f now
  obtain ⟨_, hlength, hworkers⟩ := hd.all hroom
  rcases Nat.le_total s.pending.length s.idle.length with hle | hle
  · left
    rw [pending_dispatch hroom]
    exact List.drop_eq_nil_of_le hle
  · right
    have hidle := congrArg List.length hworkers
    simp only [List.length_append, List.length_map] at hidle
    exact List.length_eq_zero_iff.1 (by omega)

end Schedule

namespace Coordinator

variable {c : Coordinator} {m : Moment} {event : Event}

/-! ## Events without a pass -/

/-- Whatever frees a worker, adds one or adds a task wakes the coordinator. -/
theorem react_asleep (h : (c.react m event).wakes = false) :
    (c.react m event).coordinator.schedule = c.schedule := by
  cases event with
  | reconcileWorkers | createSession | observeCluster | shutdown => rfl
  | serverReady port =>
    simp only [react, serverReady]
    split <;> rfl
  | getExecution name =>
    simp only [react, getExecution]
    split <;> rfl
  | resolveResult name =>
    simp only [react, resolveResult]
    split <;> rfl
  | deleteSession name owner =>
    simp only [react, deleteSession]
    split <;> rfl
  | instancesListed listing =>
    cases listing with
    | error f => rfl
    | ok workers => cases h
  | pong report =>
    simp only [react, pong] at h ⊢
    split at h
    · cases h
    · rfl
    · rfl
  | taskFinished w n elapsed weight cached =>
    simp only [react, taskFinished] at h ⊢
    split at h
    · exact (still_noteCaches c w cached).schedule
    · cases h
  | fetchingFinished w n elapsed cached =>
    have hs := (still_noteCaches c w cached).schedule
    simp only [react, fetchingFinished] at h ⊢
    split at h
    · exact hs
    · split at h
      · cases h
      · rename_i hw
        rw [if_neg hw]
        exact hs
  | taskFailed w n reason =>
    simp only [react, taskFailed] at h ⊢
    split at h
    · rfl
    · cases h
  | dispatchFailed w n ticket reason =>
    simp only [react, dispatchFailed] at h ⊢
    split at h
    · rfl
    · cases h
  | probeTimeout n ticket =>
    simp only [react, probeTimeout] at h ⊢
    split at h
    · rfl
    · rfl
    · cases h
  | createExecution r =>
    simp only [react, createExecution] at h ⊢
    split at h
    · rfl
    · cases h

theorem handle_saturated (hs : c.schedule.Saturated)
    (ht : c.schedule.nextTicket + c.due m event ≤ Word.top) :
    (c.handle m event).coordinator.schedule.Saturated := by
  rw [handle_coordinator]
  cases hwakes : (c.react m event).wakes with
  | false =>
    rw [if_neg Bool.false_ne_true, react_asleep hwakes]
    exact hs
  | true =>
    rw [if_pos rfl]
    refine Schedule.saturated_dispatch ?_ _ m.now
    rw [(react_flights c m event).1]
    simpa [due, hwakes] using ht

/-! ## Runs -/

theorem after_saturated (settings : Settings) {past : List (Moment × Event)}
    (hd : dispatches settings past < Word.top) : (after settings past).schedule.Saturated := by
  induction past with
  | nil => exact .inl rfl
  | cons p past ih =>
    obtain ⟨m, event⟩ := p
    simp only [dispatches] at hd
    have hnext : (after settings past).schedule.nextTicket = 1 + dispatches settings past :=
      after_tickets settings (by omega)
    exact handle_saturated (ih (by omega)) (by omega)

/-- Nobody waits for nothing, nor does any client see it so. -/
structure WorkConserving (c : Coordinator) : Prop where
  queue : c.schedule.pending = [] ∨ c.schedule.idle = []
  view : c.clusterView.pending = 0 ∨ ∀ v ∈ c.clusterView.workers, v.state ≠ some .idle

theorem workerState?_idle {s : Schedule} {w : WorkerName}
    (h : s.workerState? w = some .idle) : w ∈ s.idle := by
  unfold Schedule.workerState? at h
  cases hb : s.busy.find? w with
  | some kind => simp [hb] at h
  | none =>
    by_cases hw : w ∈ s.idle
    · exact hw
    · simp [hb, hw] at h

theorem workConserving_of_saturated (h : c.schedule.Saturated) : WorkConserving c := by
  refine ⟨h, ?_⟩
  cases h with
  | inl hpending => exact .inl (congrArg List.length hpending)
  | inr hidle =>
    refine .inr fun v hv hstate => ?_
    obtain ⟨member, _, rfl⟩ := List.mem_map.1 hv
    have hw := workerState?_idle hstate
    rw [hidle] at hw
    cases hw

/-- In every run in which the tickets do not run out, no event leaves a task in the queue while a
worker is idle. What the coordinator is told need not be true for that: reports, timeouts and
failed deliveries may come at any time and about anything. -/
theorem work_conserving (settings : Settings) (past : List (Moment × Event))
    (hd : dispatches settings past < Word.top) : WorkConserving (after settings past) :=
  workConserving_of_saturated (after_saturated settings hd)

/-- In the sample run two tasks wait, and no worker is idle. -/
theorem work_conserving_sample :
    WorkConserving (after sampleSettings sampleRun) ∧
    (after sampleSettings sampleRun).schedule.pending.length = 2 ∧
    (after sampleSettings sampleRun).schedule.idle = [] :=
  ⟨work_conserving sampleSettings sampleRun (by decide +kernel), by decide +kernel,
    by decide +kernel⟩

end Coordinator
end RenderFarm
