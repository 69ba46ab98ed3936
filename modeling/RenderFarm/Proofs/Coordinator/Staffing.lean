import RenderFarm.Proofs.Coordinator.Commands

/-!
# RenderFarm.Proofs.Coordinator.Staffing

The schedule has exactly the live workers, and no task is sent to any other.

* `Staffed c`: who is idle or busy is registered and the other way round, with the members and the
  crew in order.
* `after_staffed`: so it is in every run in which the tickets do not run out, and in which failed
  deliveries are reported as they happened.
* `pool_is_live`: what this says of the workers, of the tasks that are sent and of what clients see.
-/

namespace RenderFarm
namespace Coordinator

structure Staffed (c : Coordinator) : Prop where
  orderly : Fleet.Orderly c.fleet.members
  manned : c.schedule.Manned
  pool : ∀ w, c.schedule.Enlisted w ↔ c.fleet.isAlive w = true

variable {c c' : Coordinator} {m : Moment} {event : Event}

theorem Staffed.steady (h : Staffed c) (hf : c'.fleet.members = c.fleet.members)
    (hs : c.schedule.Steady c'.schedule) : Staffed c' where
  orderly := hf ▸ h.orderly
  manned := h.manned.steady hs
  pool := fun w => by
    rw [hs.enlisted, Fleet.isAlive_congr hf]
    exact h.pool w

theorem Staffed.same (h : Staffed c) (hf : c'.fleet.members = c.fleet.members)
    (hs : c'.schedule = c.schedule) : Staffed c' :=
  h.steady hf (hs ▸ .refl _)

/-- A worker is given up, and with it the task that it was on. -/
theorem Staffed.lost {s : Schedule} {n : TaskName} {a : Assignment} {w : WorkerName}
    (h : Staffed c) (ha : c.schedule.inFlight.find? n = some a) (hw : a.worker = w)
    (hs : s = c.schedule.release n a.worker) : Staffed ({ c with schedule := s }.evict w) := by
  obtain ⟨hmanned, henlisted⟩ := Schedule.manned_release h.manned ha
  subst hw hs
  refine ⟨Fleet.orderly_evict h.orderly _, hmanned, fun v => ?_⟩
  refine (henlisted v).trans ?_
  rw [h.pool]
  exact Fleet.isAlive_evict.symm

theorem opening_staffed (h : Staffed c)
    (hown : ∀ w n ticket reason, event = .dispatchFailed w n ticket reason →
      ∀ a, c.schedule.inFlight.find? n = some a → a.ticket = ticket → a.worker = w) :
    Staffed (c.opening m event).coordinator := by
  have horderly := opening_orderly h.orderly m event
  have hopens := opens c m event
  generalize c.opening m event = o at hopens horderly
  cases hopens with
  | still _ hs | fetched hs => exact h.same hs.members hs.schedule
  | joined | parted | refused | begun => exact h.same rfl rfl
  | heard hp =>
    refine ⟨horderly, h.manned, fun w => ?_⟩
    rw [Fleet.isAlive_pong hp]
    exact h.pool w
  | @resynced _ fleet =>
    obtain ⟨hmanned, henlisted⟩ := Schedule.manned_syncWorkers h.manned fleet.live
    exact ⟨horderly, hmanned, fun w => (henlisted w).trans Fleet.mem_live⟩
  | finished hs hc =>
    obtain ⟨hmanned, henlisted⟩ := Schedule.manned_complete h.manned hc
    refine ⟨horderly, hmanned, fun w => ?_⟩
    rw [Fleet.isAlive_congr hs.members, ← h.pool]
    exact henlisted w
  | failed hc =>
    obtain ⟨hmanned, henlisted⟩ := Schedule.manned_complete h.manned hc
    exact ⟨horderly, hmanned, fun w => (henlisted w).trans (h.pool w)⟩
  | @undelivered w n ticket reason a hc =>
    obtain ⟨ha, hticket⟩ := Schedule.current?_eq_some.1 hc
    exact h.lost ha (hown w n ticket reason rfl a ha hticket) rfl
  | timedOut hc => exact h.lost (Schedule.current?_eq_some.1 hc).1 rfl rfl

theorem dispatch_staffed (h : Staffed c) (now : Nat)
    (ht : c.schedule.nextTicket + min c.schedule.pending.length c.schedule.idle.length
      ≤ Word.top) : Staffed (dispatch now c).coordinator := by
  obtain ⟨as, hd⟩ := Schedule.dealt_dispatch c.schedule c.fleet now
  have hmembers := members_dispatch now c
  refine ⟨hmembers ▸ h.orderly, hd.manned h.manned, fun w => ?_⟩
  rw [Fleet.isAlive_congr hmembers, ← h.pool]
  exact hd.enlisted ht w

/-! ## Runs -/

theorem start_staffed (settings : Settings) : Staffed (start settings).coordinator := by
  refine ⟨?_, Schedule.manned_new _, fun w => ?_⟩
  · intro w member hm
    cases hm
  · simp [Schedule.Enlisted, start, new, Schedule.new, Fleet.isAlive, Fleet.new, OrderedMap.empty,
      OrderedMap.keys, OrderedMap.find?, OrderedMap.lookup]

/-- The worker of which a failed delivery is reported is the one that the task was for. -/
theorem Ticketed.worker_eq {cmds : List Command} (h : Ticketed cmds c) {w : WorkerName}
    {n : TaskName} {ticket : Ticket} {reason : String}
    (hb : cmds.any (·.brings (.dispatchFailed w n ticket reason)) = true) {a : Assignment}
    (ha : c.schedule.inFlight.find? n = some a) (hticket : a.ticket = ticket) : a.worker = w := by
  obtain ⟨cmd, hc, hbrings⟩ := List.any_eq_true.1 hb
  obtain ⟨d, b, hd, hmembers, _, hworker, _⟩ :=
    h.origin n a ha cmd hc (hticket ▸ ticket_brings hbrings)
  rw [← hworker]
  exact (deliver_brings hmembers hd hbrings).symm

theorem react_staffed (h : Staffed c)
    (hown : ∀ w n ticket reason, event = .dispatchFailed w n ticket reason →
      ∀ a, c.schedule.inFlight.find? n = some a → a.ticket = ticket → a.worker = w) :
    Staffed (c.react m event).coordinator := by
  rw [react_eq]
  obtain ⟨hfleet, _, _, hsteady⟩ := tellAll_frame m.now (c.opening m event).coordinator
    (c.opening m event).notices
  exact (opening_staffed h hown).steady (by rw [hfleet]) hsteady

theorem Staffed.reacted {cmds : List Command} (h : Staffed c) (ht : Ticketed cmds c)
    (hg : (!event.isOwn || cmds.any (·.brings event)) = true) :
    Staffed (c.react m event).coordinator := by
  refine react_staffed h fun w n ticket reason hev a ha hticket => ?_
  subst hev
  exact ht.worker_eq (by simpa [Event.isOwn] using hg) ha hticket

/-- The tickets that an event uses up, whether or not it lets tasks run. -/
theorem handle_tickets (c : Coordinator) (m : Moment) (event : Event)
    (ht : c.schedule.nextTicket + c.due m event ≤ Word.top) :
    (c.handle m event).coordinator.schedule.nextTicket
      = c.schedule.nextTicket + c.due m event := by
  have hreact := (react_flights c m event).1
  rw [handle_coordinator]
  unfold due at ht ⊢
  simp only at ht ⊢
  split
  · rename_i hwakes
    simp only [hwakes, if_true] at ht
    obtain ⟨as, hd⟩ := Schedule.dealt_dispatch (c.react m event).coordinator.schedule
      (c.react m event).coordinator.fleet m.now
    rw [← hreact] at ht ⊢
    rw [← (hd.all ht).2.1]
    exact hd.next
  · exact hreact

/-- As many tickets are out as tasks were to be given to workers. -/
theorem after_tickets (settings : Settings) {past : List (Moment × Event)}
    (hd : dispatches settings past < Word.top) :
    (after settings past).schedule.nextTicket = 1 + dispatches settings past := by
  induction past with
  | nil => rfl
  | cons p past ih =>
    obtain ⟨m, event⟩ := p
    simp only [dispatches] at hd ⊢
    have hnext := ih (by omega)
    rw [after, handle_tickets _ m event (by omega), hnext, Nat.add_assoc]

theorem after_staffed (settings : Settings) {past : List (Moment × Event)}
    (hd : dispatches settings past < Word.top) (hg : genuine settings past = true) :
    Staffed (after settings past) ∧
    (after settings past).schedule.nextTicket = 1 + dispatches settings past := by
  refine ⟨?_, after_tickets settings hd⟩
  induction past with
  | nil => exact start_staffed settings
  | cons p past ih =>
    obtain ⟨m, event⟩ := p
    have hsum : dispatches settings ((m, event) :: past)
      = dispatches settings past + (after settings past).due m event := rfl
    simp only [genuine, Bool.and_eq_true] at hg
    have hnext : (after settings past).schedule.nextTicket = 1 + dispatches settings past :=
      after_tickets settings (by omega)
    have hreact : Staffed ((after settings past).react m event).coordinator :=
      (ih (by omega) hg.2).reacted (after_ticketed settings past).2 hg.1
    rw [after, handle_coordinator]
    split
    · rename_i hwakes
      refine dispatch_staffed hreact m.now ?_
      rw [(react_flights _ m event).1, hnext]
      simp only [due, hwakes, if_true] at hsum
      omega
    · exact hreact

/-! ## What the pool is -/

/-- The member of the fleet is there, alive and not condemned. -/
def Lives (c : Coordinator) (name : WorkerName) (w : Worker) : Prop :=
  ∃ member, c.fleet.members.find? name = some member ∧ member.worker = w ∧
    member.registered = true ∧ member.liveness ≠ .condemned

structure PoolIsLive (c : Coordinator) : Prop where
  pool : ∀ w, (w ∈ c.schedule.idle ∨ w ∈ c.schedule.busy.keys) ↔
    ∃ member, c.fleet.members.find? w = some member ∧ member.registered = true
  condemned : ∀ w member, c.fleet.members.find? w = some member → member.registered = true →
    member.liveness ≠ .condemned
  single : ∀ n n' a a', c.schedule.inFlight.find? n = some a →
    c.schedule.inFlight.find? n' = some a' → a.worker = a'.worker → n = n'
  manned : ∀ n a, c.schedule.inFlight.find? n = some a → ∃ w, c.Lives a.worker w
  views : ∀ v ∈ c.clusterView.workers, v.state.isSome = v.alive

theorem Staffed.lives (h : Staffed c) {w : WorkerName} (hw : c.schedule.Enlisted w) :
    ∃ v, c.Lives w v := by
  obtain ⟨member, hm, hr⟩ := Fleet.isAlive_iff.1 ((h.pool w).1 hw)
  exact ⟨member.worker, member, hm, rfl, hr, (h.orderly w member hm).alive hr⟩

theorem Staffed.poolIsLive (h : Staffed c) : PoolIsLive c where
  pool := fun w => (h.pool w).trans Fleet.isAlive_iff
  condemned := fun w member hm => (h.orderly w member hm).alive
  single := h.manned.single
  manned := fun n a ha => h.lives (.inr (h.manned.held n a ha))
  views := by
    intro v hv
    obtain ⟨member, hm, rfl⟩ := List.mem_map.1 hv
    obtain ⟨w, hw⟩ := OrderedMap.mem_values_iff.1 hm
    rw [Bool.eq_iff_iff]
    simp only [workerView, Schedule.workerState?_isSome, (h.orderly w member hw).named, h.pool,
      Fleet.isAlive_iff, hw, Option.some.injEq, exists_eq_left']

/-- Tasks are sent to live workers only. -/
theorem Staffed.sent (h : Staffed (c.handle m event).coordinator) {w : Worker}
    {message : Wire.TaskMessage} {ticket : Ticket}
    (hc : .run w message ticket ∈ (c.handle m event).commands) :
    (c.handle m event).coordinator.Lives w.name w := by
  obtain ⟨hwakes, hc⟩ := handle_commands hc rfl
  rw [handle_coordinator, if_pos hwakes] at h ⊢
  generalize (c.react m event).coordinator = d at hc h
  obtain ⟨as, hd⟩ := Schedule.dealt_dispatch d.schedule d.fleet m.now
  obtain ⟨a, ha, hcmd⟩ := List.mem_flatMap.1 hc
  -- the worker that the task goes to is busy with it, and busy workers live
  have hbusy : a.worker ∈ (dispatch m.now d).coordinator.schedule.busy.keys :=
    hd.busy_keys.2 (.inl (List.mem_map_of_mem (hd.made a ha)))
  obtain ⟨v, member, hm, rfl, hr, hl⟩ := h.lives (.inr hbusy)
  have hworker := (prepare_eq_ok.1 (run_deliver hcmd)).1
  simp only [Fleet.worker?] at hworker
  obtain ⟨member', hm', rfl⟩ := Option.map_eq_some_iff.1 hworker
  cases hm.symm.trans hm'
  rw [(h.orderly _ member hm).named]
  exact ⟨member, hm, rfl, hr, hl⟩

/-- In every run in which the tickets do not run out, and in which failed deliveries and elapsed
timeouts are those that the coordinator has posted to itself, the idle and the busy workers are the
live ones, and only they are sent tasks. -/
theorem pool_is_live (settings : Settings) (past : List (Moment × Event))
    (hd : dispatches settings past < Word.top) (hg : genuine settings past = true) :
    PoolIsLive (after settings past) ∧
    ∀ w message ticket, .run w message ticket ∈ given settings past →
      (after settings past).Lives w.name w := by
  have h := (after_staffed settings hd hg).1
  refine ⟨h.poolIsLive, fun w message ticket hc => ?_⟩
  cases past with
  | nil => cases List.mem_singleton.1 hc
  | cons p past => exact h.sent hc

/-- The sample run, after which the task that the worker has got is reported undelivered: that
worker is given up. -/
theorem pool_is_live_sample :
    let past := (⟨"7", 0⟩, .dispatchFailed ⟨"w"⟩ ⟨"execution7-2-task4"⟩ 2 "") :: sampleRun
    (PoolIsLive (after sampleSettings past) ∧
      ∀ w message ticket, .run w message ticket ∈ given sampleSettings past →
        (after sampleSettings past).Lives w.name w) ∧
    (after sampleSettings sampleRun).schedule.busy.keys = [⟨"w"⟩] ∧
    (after sampleSettings past).schedule.busy.keys = [] :=
  ⟨pool_is_live sampleSettings _ (by decide +kernel) (by decide +kernel), by decide +kernel,
    by decide +kernel⟩

end Coordinator
end RenderFarm
