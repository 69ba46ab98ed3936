import RenderFarm.Proofs.Coordinator.Tasks

/-!
# RenderFarm.Proofs.Coordinator.Reactions

Whatever event comes, the executions and the schedule still agree after it.

* `Reacted m event c c'`: what a reaction leaves behind, apart from the pass that may follow it.
* `react_agrees`: every reaction does, if a name that it gives to an execution is new.
-/

namespace RenderFarm

/-- Whether the event has a fresh name issued. -/
def Event.asksName : Event → Bool
  | .createSession _ | .createExecution _ => true
  | _ => false

namespace Coordinator

open Execution (Call Sound)

/-- The name that an execution created at the moment gets. -/
def upcomingName (c : Coordinator) (m : Moment) : ExecutionName :=
  ⟨(c.names.next "execution" m.wallClock).1⟩

structure Reacted (m : Moment) (event : Event) (c c' : Coordinator) : Prop where
  agrees : Agrees [] c'
  tickets : c'.schedule.nextTicket = c.schedule.nextTicket
  names : c'.names.issued =
    if event.asksName then (c.names.issued + 1) % Word.size else c.names.issued
  executions : ∀ x ∈ c'.executions.keys, x ∈ c.executions.keys ∨
    event.asksName = true ∧ x = c.upcomingName m

variable {c : Coordinator} {m : Moment} {event : Event}

theorem Reacted.of_stays {c' : Coordinator} (hev : event.asksName = false)
    (h : Agrees [] c' ∧ Stays c c') : Reacted m event c c' :=
  ⟨h.1, h.2.tickets, by rw [hev, h.2.names]; rfl, fun x hx => .inl (h.2.executions ▸ hx)⟩

/-- Nothing changes that the agreement depends on. -/
theorem Reacted.idle {c' : Coordinator} (hev : event.asksName = false) (h : Agrees [] c)
    (hs : c'.schedule = c.schedule) (hx : c'.executions = c.executions)
    (hn : c'.names = c.names) : Reacted m event c c' :=
  .of_stays hev ⟨h.same hs hx, hn, by rw [hs], by rw [hx]⟩

/-! ## Reports on tasks -/

theorem tag_keyed (h : Agrees [] c) {n : TaskName} {a : Assignment}
    (ha : c.schedule.inFlight.find? n = some a) : a.task.tag = (a.task.execution, n) :=
  h.keyed.tag ha

/-- A worker's list of caches changes nothing else. -/
theorem noteCaches_agrees (h : Agrees [] c) (w : WorkerName) (cached : Option (List SessionName)) :
    Agrees [] (c.noteCaches w cached) ∧ Stays c (c.noteCaches w cached) := by
  cases cached with
  | none => exact ⟨h, .refl c⟩
  | some sessions => exact ⟨h.same rfl rfl, rfl, rfl, rfl⟩

theorem taskFinished_agrees (h : Agrees [] c) (now : Nat) (w : WorkerName) (n : TaskName)
    (elapsed : Nat) (weight : Option Nat) (cached : Option (List SessionName)) :
    Agrees [] (c.taskFinished now w n elapsed weight cached).coordinator ∧
    Stays c (c.taskFinished now w n elapsed weight cached).coordinator := by
  obtain ⟨h₁, hstays⟩ := noteCaches_agrees h w cached
  simp only [taskFinished]
  generalize c.noteCaches w cached = c₁ at h₁ hstays
  split
  · exact ⟨h₁, hstays⟩
  · rename_i s a hc
    obtain ⟨ha, hf⟩ := Schedule.frees_complete hc
    have h₂ := h₁.frees hf
    rw [tag_keyed h₁ ha] at h₂
    have h₃ := inform_agrees (fun ctx => .finish ⟨n, w, elapsed, weight⟩ ctx) (fun _ _ => rfl)
      (fun e ctx ht hn => by simp [Execution.overBy, ht, hn]) h₂ now a.task.session
    exact ⟨h₃.1, hstays.trans ((stays_frees hf).trans h₃.2)⟩

theorem taskFailed_agrees (h : Agrees [] c) (now : Nat) (w : WorkerName) (n : TaskName)
    (reason : String) :
    Agrees [] (c.taskFailed now w n reason).coordinator ∧
    Stays c (c.taskFailed now w n reason).coordinator := by
  unfold taskFailed
  split
  · exact ⟨h, .refl c⟩
  · rename_i s a hc
    have hf := (Schedule.frees_complete hc).2
    have h' := failTask_agrees now reason (h.frees hf)
    exact ⟨h'.1, (stays_frees hf).trans h'.2⟩

/-- A worker is given up, and with it the task that it was on. -/
theorem evict_agrees {s : Schedule} {t : Task} (h : Agrees [] c)
    (hf : c.schedule.Frees [t.tag] s) (now : Nat) (w : WorkerName) (reason : String) :
    Agrees [] (failTask now reason ({ c with schedule := s }.evict w) t).coordinator ∧
    Stays c (failTask now reason ({ c with schedule := s }.evict w) t).coordinator := by
  have hagrees : Agrees [t.tag] ({ c with schedule := s }.evict w) := (h.frees hf).same rfl rfl
  obtain ⟨h', hstays⟩ := failTask_agrees now reason hagrees
  exact ⟨h', hstays.names, hstays.tickets.trans hf.tickets, hstays.executions⟩

theorem dispatchFailed_agrees (h : Agrees [] c) (now : Nat) (w : WorkerName) (n : TaskName)
    (ticket : Ticket) (reason : String) :
    Agrees [] (c.dispatchFailed now w n ticket reason).coordinator ∧
    Stays c (c.dispatchFailed now w n ticket reason).coordinator := by
  unfold dispatchFailed
  split
  · exact ⟨h, .refl c⟩
  · rename_i hc
    exact evict_agrees h (Schedule.frees_abort hc).2 now w reason

theorem probeTimeout_agrees (h : Agrees [] c) (now : Nat) (n : TaskName) (ticket : Ticket) :
    Agrees [] (c.probeTimeout now n ticket).coordinator ∧
    Stays c (c.probeTimeout now n ticket).coordinator := by
  unfold probeTimeout
  split
  · exact ⟨h, .refl c⟩
  · exact ⟨h, .refl c⟩
  · rename_i a hc
    exact evict_agrees h (Schedule.frees_expire hc).2 now a.worker "timeout"

/-- The report that resources were fetched ends no task. -/
theorem fetchingFinished_agrees (h : Agrees [] c) (now : Nat) (w : WorkerName) (n : TaskName)
    (elapsed : Nat) (cached : Option (List SessionName)) :
    Agrees [] (c.fetchingFinished now w n elapsed cached).coordinator ∧
    Stays c (c.fetchingFinished now w n elapsed cached).coordinator := by
  obtain ⟨h₁, hstays⟩ := noteCaches_agrees h w cached
  simp only [fetchingFinished]
  generalize c.noteCaches w cached = c₁ at h₁ hstays
  split
  · exact ⟨h₁, hstays⟩
  · rename_i a ha
    split
    · simp only [inform]
      split
      · rename_i e he
        let c₂ := { c₁ with fleet := c₁.fleet.markCached w a.task.session }
        let call : Call := .fetched n elapsed (c₂.context a.task.session now)
        have hquiet : Agrees ((e.overBy call).map (Prod.mk a.task.execution) ++ []) c₂ :=
          h₁.same rfl rfl
        have h₂ := follow_agrees now hquiet he
        exact ⟨h₂.1, h₂.2.names.trans hstays.names, h₂.2.tickets.trans hstays.tickets,
          h₂.2.executions.trans hstays.executions⟩
      · exact ⟨h₁.same rfl rfl, hstays.names, hstays.tickets, hstays.executions⟩
    · exact ⟨h₁, hstays⟩

/-! ## Changes of the fleet -/

theorem instancesListed_agrees (h : Agrees [] c) (now : Nat)
    (listing : Except Failure (List Worker)) :
    Agrees [] (c.instancesListed now listing).coordinator ∧
    Stays c (c.instancesListed now listing).coordinator := by
  cases listing with
  | error f => exact ⟨h, .refl c⟩
  | ok workers =>
    have h' := syncWorkers_agrees (c := { c with fleet := (c.fleet.reconcile workers).1 })
      (h.same rfl rfl) now
    exact ⟨h'.1, h'.2.names, h'.2.tickets, h'.2.executions⟩

theorem pong_agrees (h : Agrees [] c) (now : Nat) (report : Wire.Pong) :
    Agrees [] (c.pong now report).coordinator ∧ Stays c (c.pong now report).coordinator := by
  have hfleet : ∀ fleet, Agrees [] { c with fleet } := fun _ => h.same rfl rfl
  simp only [pong]
  split
  · have h' := syncWorkers_agrees (hfleet (c.fleet.pong report.worker report.cached).1) now
    exact ⟨h'.1, h'.2.names, h'.2.tickets, h'.2.executions⟩
  · exact ⟨hfleet _, rfl, rfl, rfl⟩
  · exact ⟨hfleet _, rfl, rfl, rfl⟩

/-! ## New executions -/

/-- An execution that nobody has heard of, and that has issued nothing. -/
theorem Agrees.insert {hand : List Tag} {x : ExecutionName} {e : Execution} (h : Agrees hand c)
    (hx : x ∉ c.executions.keys) (hname : e.name = x) (hs : Sound e) (hout : e.outstanding = []) :
    Agrees hand { c with executions := c.executions.insert x e } := by
  have hknown : ∀ n, (x, n) ∉ c.scheduled ++ hand := by
    intro n hn
    obtain ⟨f, hf, _⟩ := h.known x n hn
    exact hx (OrderedMap.mem_keys_iff.2 ⟨f, hf⟩)
  refine ⟨h.keyed, h.nodup, ?_, ?_, ?_, ?_⟩
  · intro y f hf
    simp only [OrderedMap.find?_insert] at hf
    split at hf
    · rename_i hy
      cases hf
      exact ⟨hname.trans hy, hs⟩
    · exact h.sound y f hf
  · intro y n hn
    obtain ⟨f, hf, hk⟩ := h.known y n hn
    refine ⟨f, ?_, hk⟩
    simp only [OrderedMap.find?_insert]
    rw [if_neg]
    · exact hf
    · rintro rfl
      exact hknown n hn
  · intro y f hf ht n
    simp only [OrderedMap.find?_insert] at hf
    split at hf
    · rename_i hy
      cases hf
      subst hy
      simp only [hout, List.not_mem_nil, false_iff]
      exact hknown n
    · exact h.agree y f hf ht n
  · intro y f hf ht n hn
    simp only [OrderedMap.find?_insert] at hf
    split at hf
    · rename_i hy
      subst hy
      exact hknown n (List.mem_append_left _ (List.mem_append_left _ hn))
    · exact h.dropped y f hf ht n hn

theorem follow_insert (c : Coordinator) (now : Nat) (e : Execution)
    (change : Execution × List Execution.Action) (hname : change.1.name = e.name) :
    { c with executions := c.executions.insert e.name e }.follow now change
      = c.follow now change := by
  simp only [follow, hname, OrderedMap.insert_insert]

theorem createExecution_reacted (h : Agrees [] c) (m : Moment) (r : ExecutionRequest)
    (hnew : c.upcomingName m ∉ c.executions.keys) :
    Reacted m (.createExecution r) c (c.createExecution m r).coordinator := by
  simp only [createExecution]
  split
  · exact ⟨h.same rfl rfl, rfl, rfl, fun x hx => .inl hx⟩
  · rename_i s sessions _
    let c₁ := { c with names := (c.names.next "execution" m.wallClock).2, sessions }
    let e := Execution.create c.settings.executionPolicy (c.upcomingName m) r.session r.parallel
      s.hasResources m.now
    -- started once it is among the others, it comes to the same, and the start is a call like any
    let c₂ := { c₁ with executions := c₁.executions.insert e.name e }
    let call : Call := .start (c₁.context r.session m.now)
    have hsound : Sound e := Execution.create_sound _ _ _ _ _ _
    have h₁ : Agrees [] c₁ := h.same rfl rfl
    have h₂ : Agrees ((e.overBy call).map (Prod.mk e.name) ++ []) c₂ :=
      h₁.insert hnew rfl hsound rfl
    have he : c₂.executions.find? e.name = some e := by
      simp only [c₂, OrderedMap.find?_insert, if_true]
    obtain ⟨h₃, hstays⟩ := follow_agrees m.now h₂ he
    have hname : (e.respond call).1.name = e.name :=
      (Execution.respond_accounts hsound call).terms.name
    rw [follow_insert c₁ m.now e _ hname] at h₃ hstays
    refine ⟨h₃, hstays.tickets, congrArg NameSource.issued hstays.names, fun x hx => ?_⟩
    have hkeys : c₂.executions.keys = c.executions.keys ++ [e.name] :=
      OrderedMap.keys_insert_new e hnew
    have hx : x ∈ c₂.executions.keys := hstays.executions ▸ hx
    rw [hkeys, List.mem_append, List.mem_singleton] at hx
    exact hx.imp_right fun hx => ⟨rfl, hx⟩

/-! ## All events -/

/-- After any event the executions and the schedule still agree. -/
theorem react_agrees (h : Agrees [] c) (m : Moment) (event : Event)
    (hnew : event.asksName = true → c.upcomingName m ∉ c.executions.keys) :
    Reacted m event c (c.react m event).coordinator := by
  cases event with
  | serverReady port =>
    simp only [react, serverReady]
    split <;> exact .idle rfl h rfl rfl rfl
  | reconcileWorkers | observeCluster | shutdown => exact .idle rfl h rfl rfl rfl
  | getExecution name =>
    simp only [react, getExecution]
    split <;> exact .idle rfl h rfl rfl rfl
  | resolveResult name =>
    simp only [react, resolveResult]
    split <;> exact .idle rfl h rfl rfl rfl
  | instancesListed listing => exact .of_stays rfl (instancesListed_agrees h m.now listing)
  | pong report => exact .of_stays rfl (pong_agrees h m.now report)
  | taskFinished w n elapsed weight cached =>
    exact .of_stays rfl (taskFinished_agrees h m.now w n elapsed weight cached)
  | fetchingFinished w n elapsed cached =>
    exact .of_stays rfl (fetchingFinished_agrees h m.now w n elapsed cached)
  | taskFailed w n reason => exact .of_stays rfl (taskFailed_agrees h m.now w n reason)
  | dispatchFailed w n ticket reason =>
    exact .of_stays rfl (dispatchFailed_agrees h m.now w n ticket reason)
  | probeTimeout n ticket => exact .of_stays rfl (probeTimeout_agrees h m.now n ticket)
  | createSession r => exact ⟨h.same rfl rfl, rfl, rfl, fun x hx => .inl hx⟩
  | deleteSession name owner =>
    simp only [react, deleteSession]
    split <;> exact .idle rfl h rfl rfl rfl
  | createExecution r => exact createExecution_reacted h m r (hnew rfl)

end Coordinator
end RenderFarm
