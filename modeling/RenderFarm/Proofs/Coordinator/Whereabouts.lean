import RenderFarm.Proofs.Coordinator.Preparation
import RenderFarm.Proofs.Execution.Records

/-!
# RenderFarm.Proofs.Coordinator.Whereabouts

Results are looked up where they were made.

* `Takes c event a e r`: the event is the report of the worker that a task is on, and the execution
  takes it for the result `r`.
* `Made`, `Concluded`: a result of a run comes of such a report, the result of an execution of the
  one that has ended it; `after_traceable`, in every run.
* `Grouped c`: whatever merge waits for a worker is outstanding, with the group that it was issued
  for.
* `Posted cmds n a`: the assignment was sent to its worker; `after_posted`, of all that is on a
  worker as long as there are tickets.
* `results_located`: what this comes to in the messages to the workers and in the answers to the
  clients.
-/

namespace RenderFarm

namespace Schedule

theorem worker_complete {s s' : Schedule} {w : WorkerName} {n : TaskName} {a : Assignment}
    (h : s.complete w n = (s', some a)) : a.worker = w := by
  unfold complete at h
  split at h
  · cases h
  · split at h
    · rename_i hw
      dsimp only at h
      split at h <;> cases h <;> exact hw
    · cases h

end Schedule

namespace Coordinator

open Execution (Call Records)

variable {past : List (Moment × Event)} {c c' : Coordinator} {m : Moment} {event : Event}
  {x : ExecutionName} {e : Execution} {r : PartialResult} {a : Assignment} {done : List Tag}

/-! ## Reports that are taken -/

structure Takes (c : Coordinator) (event : Event) (a : Assignment) (e : Execution)
    (r : PartialResult) : Prop where
  flying : c.schedule.inFlight.find? r.task = some a
  own : a.worker = r.worker
  known : c.executions.find? a.task.execution = some e
  reported : ∃ elapsed stated cached,
    event = .taskFinished r.worker r.task elapsed stated cached ∧
    e.recorded? ⟨r.task, r.worker, elapsed, stated⟩ = some r

/-- The result was made in the run: its worker has reported the task, which was on that worker. -/
def Made (settings : Settings) (past : List (Moment × Event)) (x : ExecutionName)
    (r : PartialResult) : Prop :=
  ∃ later m event earlier a e, past = later ++ (m, event) :: earlier ∧
    Takes (after settings earlier) event a e r ∧ a.task.execution = x

/-- The report was that of the final merge, and ended the execution with the result. -/
def Concluded (settings : Settings) (past : List (Moment × Event)) (x : ExecutionName)
    (r : PartialResult) : Prop :=
  ∃ later m event earlier a e g e', past = later ++ (m, event) :: earlier ∧
    Takes (after settings earlier) event a e r ∧ a.task.execution = x ∧
    e.isTerminal = false ∧ e.finalMerge = some (r.task, g) ∧
    (after settings ((m, event) :: earlier)).executions.find? x = some e' ∧
    e'.phase = .finished ∧ e'.result = some r

theorem Made.later {settings : Settings} (h : Made settings past x r) (p : Moment × Event) :
    Made settings (p :: past) x r := by
  obtain ⟨later, m, event, earlier, a, e, rfl, h⟩ := h
  exact ⟨p :: later, m, event, earlier, a, e, rfl, h⟩

theorem Concluded.later {settings : Settings} (h : Concluded settings past x r)
    (p : Moment × Event) : Concluded settings (p :: past) x r := by
  obtain ⟨later, m, event, earlier, a, e, g, e', rfl, h⟩ := h
  exact ⟨p :: later, m, event, earlier, a, e, g, e', rfl, h⟩

/-! ## What a run has made -/

structure Traceable (settings : Settings) (past : List (Moment × Event)) (c : Coordinator) :
    Prop where
  held : ∀ x e, c.executions.find? x = some e → ∀ r ∈ e.holdings, Made settings past x r
  finished : ∀ x e, c.executions.find? x = some e → e.phase = .finished →
    ∃ r, e.result = some r ∧ Concluded settings past x r

variable {settings : Settings}

theorem Traceable.same (h : Traceable settings past c) (hx : c'.executions = c.executions) :
    Traceable settings past c' :=
  ⟨hx ▸ h.held, hx ▸ h.finished⟩

theorem Traceable.later (h : Traceable settings past c) (p : Moment × Event) :
    Traceable settings (p :: past) c where
  held := fun x e he r hr => (h.held x e he r hr).later p
  finished := by
    intro x e he hp
    obtain ⟨r, hr, hc⟩ := h.finished x e he hp
    exact ⟨r, hr, hc.later p⟩

/-- A new execution holds nothing. -/
theorem opening_traceable (h : Traceable settings past c) (m : Moment) (event : Event) :
    Traceable settings past (c.opening m event).coordinator := by
  have hopens := opens c m event
  generalize c.opening m event = o at hopens
  cases hopens with
  | still _ hs | finished hs | fetched hs => exact h.same hs.executions
  | heard | resynced | failed | undelivered | timedOut | joined | parted | refused =>
    exact h.same rfl
  | begun _ he =>
    refine ⟨fun y f hf r hr => ?_, fun y f hf hp => ?_⟩
    · rw [OrderedMap.find?_insert] at hf
      split at hf
      · cases hf
        subst he
        cases hr
      · exact h.held y f hf r hr
    · rw [OrderedMap.find?_insert] at hf
      split at hf
      · cases hf
        subst he
        simp only [Execution.create] at hp
        split at hp <;> cases hp
      · exact h.finished y f hf hp

/-- What an execution is told may be recorded as a result, or end it. -/
theorem tell_traceable (hg : Grounded past c) (h : Traceable settings past c) (now : Nat)
    {call : Call}
    (hmade : ∀ e r, c.executions.find? x = some e → Records e call r → Made settings past x r)
    (hended : ∀ e e' r g, c.executions.find? x = some e → Records e call r →
      e.finalMerge = some (r.task, g) →
      (tell now c (x, call)).executions.find? x = some e' → e'.phase = .finished →
      e'.result = some r → Concluded settings past x r) :
    Traceable settings past (tell now c (x, call)) := by
  rcases hg.tell_cases now x call with hsame | ⟨e, he, _, hs, ht⟩
  · rwa [hsame]
  · have hfind : (tell now c (x, call)).executions.find? x = some (e.respond call).1 := by
      rw [ht.executions, OrderedMap.find?_insert, if_pos rfl]
    refine ⟨fun y f hf r hr => ?_, fun y f hf hp => ?_⟩
    · rw [ht.executions, OrderedMap.find?_insert] at hf
      split at hf
      · rename_i hy
        cases hf
        subst hy
        rcases Execution.respond_recorded hs call hr with hr | hrec
        · exact h.held x e he r hr
        · exact hmade e r he hrec
      · exact h.held y f hf r hr
    · rw [ht.executions, OrderedMap.find?_insert] at hf
      split at hf
      · rename_i hy
        cases hf
        subst hy
        by_cases hbefore : e.phase = .finished
        · have hover : e.isTerminal = true := by rw [Execution.isTerminal, hbefore]; rfl
          rw [Execution.respond_terminal hover]
          exact h.finished x e he hbefore
        · obtain ⟨r, g, hrec, hfinal, hresult⟩ := Execution.respond_finished hbefore hp
          exact ⟨r, hresult, hended e _ r g he hrec hfinal hfind hp hresult⟩
      · exact h.finished y f hf hp

/-- A task is told to be complete only when the worker that it is on has reported it. -/
theorem opening_finish (c : Coordinator) (m : Moment) (event : Event) :
    (∀ p ∈ (c.opening m event).notices, ∀ completion ctx, p.2 ≠ .finish completion ctx) ∨
    ∃ w n elapsed stated cached a ctx, event = .taskFinished w n elapsed stated cached ∧
      c.schedule.inFlight.find? n = some a ∧ a.worker = w ∧
      (c.opening m event).coordinator.executions = c.executions ∧
      (c.opening m event).notices = [(a.task.execution, .finish ⟨n, w, elapsed, stated⟩ ctx)] := by
  have hopens := opens c m event
  generalize c.opening m event = o at hopens
  cases hopens with
  | finished hs hc =>
    refine .inr ⟨_, _, _, _, _, _, _, rfl, (Schedule.frees_complete hc).1, ?_, hs.executions, rfl⟩
    exact Schedule.worker_complete hc
  | still | heard | joined | parted | refused =>
    refine .inl fun p hp => ?_
    cases hp
  | resynced =>
    refine .inl fun p hp completion ctx => ?_
    obtain ⟨t, _, rfl⟩ := List.mem_map.1 hp
    exact Call.noConfusion
  | fetched | failed | undelivered | timedOut | begun =>
    refine .inl fun p hp completion ctx => ?_
    cases List.mem_singleton.1 hp
    exact Call.noConfusion

theorem takes_of_records {w : WorkerName} {n : TaskName} {elapsed : Nat} {stated : Option Nat}
    {ctx : Execution.Context} (cached : Option (List SessionName))
    (ha : c.schedule.inFlight.find? n = some a) (hw : a.worker = w)
    (he : c.executions.find? a.task.execution = some e)
    (h : Records e (.finish ⟨n, w, elapsed, stated⟩ ctx) r) :
    Takes c (.taskFinished w n elapsed stated cached) a e r ∧ e.isTerminal = false := by
  cases h with
  | mk h =>
    obtain ⟨hrun, _, htask, hworker⟩ := Execution.recorded?_eq_some h
    cases htask
    cases hworker
    exact ⟨⟨ha, hw, he, elapsed, stated, cached, rfl, h⟩, hrun⟩

/-- A dispatch pass leaves the executions alone. -/
theorem executions_after (settings : Settings) (past : List (Moment × Event)) (m : Moment)
    (event : Event) : (after settings ((m, event) :: past)).executions =
      ((after settings past).react m event).coordinator.executions := by
  rw [after, handle_coordinator]
  split <;> rfl

/-- In every run, whatever an execution holds was made, and no execution is over without a report
of its final merge. -/
theorem after_traceable (settings : Settings) (past : List (Moment × Event)) :
    Traceable settings past (after settings past) := by
  induction past with
  | nil =>
    refine ⟨?_, ?_⟩
    · intro x e he
      cases he
    · intro x e he
      cases he
  | cons p past ih =>
    obtain ⟨m, event⟩ := p
    have hgrounded := opening_grounded (after_grounded settings past) m event
    have hopening := (opening_traceable ih m event).later (m, event)
    have hexecutions := executions_after settings past m event
    refine Traceable.same ?_ hexecutions
    rw [react_eq] at hexecutions ⊢
    rcases opening_finish (after settings past) m event with
      hnone | ⟨w, n, elapsed, stated, cached, a, ctx, hevent, ha, hw, hx, hnotices⟩
    · refine (tellAll_keeps_of_mem (P := fun c => Grounded ((m, event) :: past) c ∧
        Traceable settings ((m, event) :: past) c) ?_ ⟨hgrounded, hopening⟩).2
      rintro c ⟨x, call⟩ hp ⟨hg, h⟩
      have hquiet : ∀ e r, ¬ Records e call r := by
        intro e r hrec
        cases hrec with
        | mk => exact hnone _ hp _ _ rfl
      refine ⟨tell_grounded m.now _ hg, tell_traceable hg h m.now ?_ ?_⟩
      · intro e r _ hrec
        exact absurd hrec (hquiet e r)
      · intro e e' r g _ hrec
        exact absurd hrec (hquiet e r)
    · rw [hnotices] at hexecutions ⊢
      refine tell_traceable hgrounded hopening m.now ?_ ?_
      · intro e r he hrec
        rw [hx] at he
        obtain ⟨htakes, _⟩ := takes_of_records cached ha hw he hrec
        exact ⟨[], m, event, past, a, e, rfl, hevent ▸ htakes, rfl⟩
      · intro e e' r g he hrec hfinal he' hphase hresult
        rw [hx] at he
        obtain ⟨htakes, hrun⟩ := takes_of_records cached ha hw he hrec
        refine ⟨[], m, event, past, a, e, g, e', rfl, hevent ▸ htakes, rfl, hrun, hfinal, ?_,
          hphase, hresult⟩
        rw [hexecutions]
        exact he'

/-! ## Waiting merges -/

/-- A waiting merge has the inputs of its group. -/
def Grouped (c : Coordinator) : Prop :=
  ∀ t ∈ c.schedule.queue, ∀ e inputs, c.executions.find? t.execution = some e →
    t.work = .reduce inputs → ∃ g, e.Merges t.name g ∧ g.inputs = inputs

theorem outcome?_of_over {call : Call} {n : TaskName} (h : n ∈ e.overBy call) :
    Notice.outcome? (x, call) = some (x, n) := by
  cases call with
  | start | fetched => cases h
  | finish | fail =>
    simp only [Execution.overBy] at h
    split at h
    · cases List.mem_singleton.1 h
      rfl
    · cases h

/-- A merge whose end is told no longer waits. -/
theorem tell_grouped (hg : Grounded past c) (hs : Settled done c) (h : Grouped c) (now : Nat)
    {notice : Notice} (hdone : ∀ tag, notice.outcome? = some tag → tag ∈ done) :
    Grouped (tell now c notice) := by
  obtain ⟨x, call⟩ := notice
  rcases hg.tell_cases now x call with hsame | ⟨e, he, hname, hsound, ht⟩
  · rwa [hsame]
  · have ha := Execution.respond_accounts hsound call
    intro t hmem f inputs hf hwork
    rw [ht.executions, OrderedMap.find?_insert] at hf
    rcases List.mem_append.1 (ht.queue.subset hmem) with hold | hissued
    · split at hf
      · rename_i hx
        cases hf
        obtain ⟨g, hm, hinputs⟩ := h t hold e inputs (hx ▸ he) hwork
        refine ⟨g, Execution.respond_merges hsound hm fun hover => ?_, hinputs⟩
        have htag : t.tag ∈ done := by
          rw [Task.tag, ← hx]
          exact hdone _ (outcome?_of_over hover)
        exact (List.nodup_append.1 hs.nodup).2.2 _ (mem_scheduled_queue hold) _ htag rfl
      · exact h t hold f inputs hf hwork
    · obtain ⟨u, hu, rfl⟩ := List.mem_map.1 hissued
      have hx : x = u.gist.execution := ((ha.owner u hu).1.trans hname).symm
      rw [if_pos hx] at hf
      cases hf
      have hgroup := Execution.respond_issued hsound hu (Task.work_gist.1 hwork)
      exact hgroup

theorem opening_grouped (hg : Grounded past c) (hs : Settled done c) (h : Grouped c)
    (hn : (stamps ((m, event) :: past)).Nodup) : Grouped (c.opening m event).coordinator := by
  intro t ht f inputs hf
  rw [opening_queue] at ht
  obtain ⟨e, he, _⟩ := hs.known t.execution t.name (List.mem_append_left _ (mem_scheduled_queue ht))
  cases (opening_executions hg hn he).symm.trans hf
  exact h t ht f inputs he

theorem reacted_grouped (hg : Grounded past c) (hs : Settled done c) (h : Grouped c)
    (hn : (stamps ((m, event) :: past)).Nodup) : Grouped (c.react m event).coordinator := by
  rw [react_eq]
  refine (tellAll_keeps_of_mem (P := fun c => Grounded ((m, event) :: past) c ∧ Settled _ c ∧
    Grouped c) ?_ ⟨opening_grounded hg m event, opening_settled hg hs hn,
      opening_grouped hg hs h hn⟩).2.2
  rintro c notice hmem ⟨hg, hs, h⟩
  refine ⟨tell_grounded m.now notice hg, tell_settled hg hs m.now notice,
    tell_grouped hg hs h m.now fun tag htag => ?_⟩
  exact List.mem_append_left _ (List.mem_filterMap.2 ⟨notice, hmem, htag⟩)

theorem dispatch_grouped (h : Grouped c) (now : Nat) : Grouped (dispatch now c).coordinator := by
  obtain ⟨as, hd⟩ := Schedule.dealt_dispatch c.schedule c.fleet now
  intro t ht
  exact h t (hd.tasks.subset (List.mem_append_right _ ht))

theorem after_grouped (settings : Settings) {past : List (Moment × Event)}
    (hn : (stamps past).Nodup) : Grouped (after settings past) := by
  induction past with
  | nil =>
    intro t ht
    cases ht
  | cons p past ih =>
    obtain ⟨m, event⟩ := p
    have hn' := stamps_tail hn
    have hreact : Grouped ((after settings past).react m event).coordinator :=
      reacted_grouped (after_grounded settings past) (after_settled settings hn').1 (ih hn') hn
    exact handle_of_react hreact fun _ h => dispatch_grouped h m.now

/-! ## What was sent -/

/-- The task was sent to the worker that it is on. -/
def Posted (cmds : List Command) (n : TaskName) (a : Assignment) : Prop :=
  ∃ w message, .run w message a.ticket ∈ cmds ∧ w.name = a.worker ∧ message.name = n ∧
    message.execution = a.task.execution

theorem Prepared.posted {cmds : List Command} (h : Prepared c cmds a)
    (hf : Fleet.Orderly c.fleet.members) : Posted cmds a.task.name a := by
  obtain ⟨w, s, hw, _, hsent⟩ := h.sent
  obtain ⟨member, hm, rfl⟩ := Option.map_eq_some_iff.1 hw
  exact ⟨_, _, hsent, (hf a.worker member hm).named, rfl, rfl⟩

/-- As long as there are tickets, what is on a worker was given to it by the last event, or was
there before. -/
theorem assigned_of_flight (settings : Settings)
    (hd : dispatches settings ((m, event) :: past) < Word.top)
    (hn : (stamps ((m, event) :: past)).Nodup) {n : TaskName}
    (ha : (after settings ((m, event) :: past)).schedule.inFlight.find? n = some a) :
    a ∈ assigned settings ((m, event) :: past) ∧ a.task.name = n ∨
    ∃ b, (after settings past).schedule.inFlight.find? n = some b ∧ Alike b a := by
  have hsum : dispatches settings ((m, event) :: past)
    = dispatches settings past + (after settings past).due m event := rfl
  obtain ⟨hnext, hflights⟩ := react_flights (after settings past) m event
  obtain ⟨_, htickets, _⟩ := after_agrees settings
    (Nat.lt_of_le_of_lt (Nat.le_add_right _ _) hd) (stamps_tail hn)
  rw [after, handle_coordinator] at ha
  split at ha
  · rename_i hwakes
    obtain ⟨as, hdealt⟩ := Schedule.dealt_dispatch
      ((after settings past).react m event).coordinator.schedule
      ((after settings past).react m event).coordinator.fleet m.now
    simp only [due, hwakes, if_true] at hsum
    obtain ⟨hmade, _⟩ := hdealt.all (by omega)
    rcases hdealt.find? ha with ⟨hmem, hname⟩ | ha
    · refine .inl ⟨?_, hname⟩
      simp only [assigned, hwakes, if_true, hmade]
      exact hmem
    · exact .inr (hflights n a ha)
  · exact .inr (hflights n a ha)

theorem after_posted (settings : Settings) {past : List (Moment × Event)}
    (hd : dispatches settings past < Word.top) (hn : (stamps past).Nodup) {n : TaskName}
    (ha : (after settings past).schedule.inFlight.find? n = some a) :
    Posted (commands settings past) n a := by
  induction past generalizing a with
  | nil => cases ha
  | cons p past ih =>
    obtain ⟨m, event⟩ := p
    rcases assigned_of_flight settings hd hn ha with ⟨hmem, rfl⟩ | ⟨b, hb, hgist, hworker, hticket⟩
    · obtain ⟨w, message, hsent, hrest⟩ := ((assignments_prepared settings _ hn).1 a hmem).posted
        (after_ticketed settings _).1
      exact ⟨w, message, List.mem_append_left _ hsent, hrest⟩
    · obtain ⟨w, message, hsent, hw, hname, hx⟩ :=
        ih (Nat.lt_of_le_of_lt (Nat.le_add_right _ _) hd) (stamps_tail hn) hb
      have hexecution : b.task.execution = a.task.execution := (Task.mk.inj hgist).2.2.1
      exact ⟨w, message, List.mem_append_right _ (hticket ▸ hsent), hw.trans hworker, hname,
        hx.trans hexecution⟩

/-! ## Messages -/

/-- The message of a merge has the inputs of its group whose workers are in the cluster, each once,
with where the worker is now that the input was made on. -/
structure Located (settings : Settings) (past : List (Moment × Event))
    (message : Wire.TaskMessage) (e : Execution) (g : MergeGroup) : Prop where
  known : (after settings past).executions.find? message.execution = some e
  merges : e.Merges message.name g
  inputs : message.inputs = g.inputs.filterMap fun r =>
    ((after settings past).fleet.worker? r.worker).map fun w => ⟨r.task, r.weight, w.address⟩
  once : (message.inputs.map Wire.InputMessage.task).Nodup
  made : ∀ r ∈ g.inputs, Made settings past message.execution r

theorem inputMessages_sublist (f : Fleet) (rs : List PartialResult) :
    ((rs.filterMap (inputMessage? f)).map Wire.InputMessage.task).Sublist
      (rs.map PartialResult.task) := by
  induction rs with
  | nil => exact .slnil
  | cons r rs ih =>
    cases hw : f.worker? r.worker with
    | none =>
      have hnone : inputMessage? f r = none := by rw [inputMessage?, hw, Option.map_none]
      rw [List.filterMap_cons_none hnone]
      exact ih.cons _
    | some w =>
      have hsome : inputMessage? f r = some ⟨r.task, r.weight, w.address⟩ := by
        rw [inputMessage?, hw, Option.map_some]
      rw [List.filterMap_cons_some hsome]
      exact ih.cons_cons _

/-- The group of an outstanding merge has no result twice, and all of them were made. -/
theorem group_made (settings : Settings) (past : List (Moment × Event)) {g : MergeGroup}
    {n : TaskName} (he : (after settings past).executions.find? x = some e) (hm : e.Merges n g) :
    (g.inputs.map PartialResult.task).Nodup ∧ ∀ r ∈ g.inputs, Made settings past x r := by
  obtain ⟨rest, hperm⟩ := hm.held
  obtain ⟨policy, session, parallel, fetches, now, calls, rfl⟩ :=
    (after_grounded settings past).arisen x e he
  have hfiled := Execution.after_filed policy x session parallel fetches now calls
  refine ⟨?_, fun r hr => ?_⟩
  · have hall := (hperm.map PartialResult.task).nodup_iff.1 hfiled.nodup
    exact hall.sublist ((List.sublist_append_left _ _).map _)
  · have hheld := hperm.mem_iff.2 (List.mem_append_left _ hr)
    exact (after_traceable settings past).held x _ he r hheld

/-- A merge that a pass sends was waiting with the inputs of its group. -/
theorem dispatch_grouped_run (hq : Queued c) (h : Grouped c) {now : Nat} {w : Worker}
    {message : Wire.TaskMessage} {ticket : Ticket}
    (hc : .run w message ticket ∈ (dispatch now c).commands) (hk : message.kind = .reducing) :
    ∃ e g, c.executions.find? message.execution = some e ∧ e.Merges message.name g ∧
      message.inputs = g.inputs.filterMap (inputMessage? (dispatch now c).coordinator.fleet) := by
  obtain ⟨a, ha, hdeliver⟩ := List.mem_flatMap.1 hc
  obtain ⟨_, s, _, rfl⟩ := prepare_eq_ok.1 (run_deliver hdeliver)
  obtain ⟨as, hd⟩ := Schedule.dealt_dispatch c.schedule c.fleet now
  have hqueue : a.task.gist ∈ c.schedule.queue :=
    hd.tasks.subset (List.mem_append_left _
      (List.mem_map_of_mem (f := fun a => a.task.gist) (hd.made a ha)))
  obtain ⟨t, ht, htask⟩ := List.mem_map.1 hqueue
  obtain ⟨e, he, _⟩ := (hq t ht).running
  have hx : t.execution = a.task.execution := (Task.mk.inj htask).2.2.1
  rw [hx] at he
  cases hwork : a.task.work with
  | produce => simp [taskMessage, Task.kind, TaskWork.kind, hwork] at hk
  | reduce inputs =>
    obtain ⟨g, hm, rfl⟩ := h _ hqueue e inputs he (Task.work_gist.2 hwork)
    refine ⟨e, g, he, hm, ?_⟩
    simp only [taskMessage, hwork]
    rfl

theorem run_located (settings : Settings) (past : List (Moment × Event)) (hn : (stamps past).Nodup)
    {w : Worker} {message : Wire.TaskMessage} {ticket : Ticket}
    (hc : .run w message ticket ∈ given settings past) (hk : message.kind = .reducing) :
    ∃ e g, Located settings past message e g := by
  cases past with
  | nil => cases List.mem_singleton.1 hc
  | cons p past =>
    obtain ⟨m, event⟩ := p
    have hn' := stamps_tail hn
    obtain ⟨hwakes, hdispatch⟩ := handle_commands hc rfl
    have hgrouped := reacted_grouped (after_grounded settings past)
      (after_settled settings hn').1 (after_grouped settings hn') hn
    obtain ⟨e, g, he, hm, hinputs⟩ := dispatch_grouped_run (reacted_hosted settings past m event).2
      hgrouped hdispatch hk
    rw [← executions_after] at he
    obtain ⟨honce, hmade⟩ := group_made settings ((m, event) :: past) he hm
    refine ⟨e, g, he, hm, ?_, ?_, hmade⟩
    · rw [after, handle_coordinator, if_pos hwakes]
      exact hinputs
    · rw [hinputs]
      exact honce.sublist (inputMessages_sublist _ _)

/-! ## Answers -/

/-- What a client is answered who asks where the result of the execution is. -/
structure Answered (c : Coordinator) (x : ExecutionName) (r : PartialResult) : Prop where
  found : ∀ w, c.fleet.worker? r.worker = some w → ∀ m,
    (c.handle m (.resolveResult x)).reply = some (.result w r.task)
  gone : c.fleet.worker? r.worker = none → ∀ m,
    (c.handle m (.resolveResult x)).reply =
      some (.refused (.unavailable (.resultGone r.worker x)))

theorem resolve_answered (he : c.executions.find? x = some e) (hr : e.result = some r) :
    Answered c x r := by
  refine ⟨fun w hw m => ?_, fun hw m => ?_⟩
  all_goals
    rw [handle_reply]
    simp only [react, resolveResult, locateResult, execution?, he, hr, hw]
    rfl

/-! ## The whereabouts of results -/

structure Whereabouts (settings : Settings) (past : List (Moment × Event)) : Prop where
  inputs : ∀ w message ticket, .run w message ticket ∈ given settings past →
    message.kind = .reducing → ∃ e g, Located settings past message e g
  /-- Whatever was on a worker at any time was sent to it. -/
  posted : ∀ later earlier, past = later ++ earlier → dispatches settings earlier < Word.top →
    ∀ n a, (after settings earlier).schedule.inFlight.find? n = some a →
      Posted (commands settings earlier) n a
  results : ∀ x e, (after settings past).executions.find? x = some e → e.phase = .finished →
    ∃ r, e.result = some r ∧ Concluded settings past x r ∧ Answered (after settings past) x r

/-- Results are looked up where they were made, in every run in which no name is given twice. -/
theorem results_located (settings : Settings) (past : List (Moment × Event))
    (hn : (stamps past).Nodup) : Whereabouts settings past where
  inputs := fun _ _ _ hc hk => run_located settings past hn hc hk
  posted := by
    rintro later earlier rfl hd n a ha
    exact after_posted settings hd (stamps_earlier hn) ha
  results := by
    intro x e he hphase
    obtain ⟨r, hr, hconcluded⟩ := (after_traceable settings past).finished x e he hphase
    exact ⟨r, hr, hconcluded, resolve_answered he hr⟩

/-- Two workers and an execution of two units. The first worker moves to another address before the
final merge `task5` is sent, which takes two results from it. -/
def movedRun : List (Moment × Event) :=
  [finished "w2" 5, finished "w1" 4, listed "10.0.0.3", finished "w2" 2, finished "w1" 3,
    finished "w1" 1, .createExecution ⟨⟨"session7-1"⟩, none, 2, none⟩,
    .createSession ⟨none, [], "p", "f"⟩, .pong ⟨⟨"w2"⟩, [], []⟩, .pong ⟨⟨"w1"⟩, [], []⟩,
    listed "10.0.0.1"].map fun e => (⟨"7", 0⟩, e)
where
  listed (host : String) : Event :=
    .instancesListed (.ok [⟨⟨"w1"⟩, host, 5000, 9000⟩, ⟨⟨"w2"⟩, "10.0.0.2", 5000, 9000⟩])
  finished (w : String) (n : Nat) : Event :=
    .taskFinished ⟨w⟩ (.ofExecution ⟨"execution7-2"⟩ n) 10 none none

/-- The merge that is sent, with its inputs and the hosts to read them from. -/
def inputsSent? : Command → Option (TaskName × List (TaskName × String))
  | .run _ message _ =>
    if message.kind = .reducing then
      some (message.name, message.inputs.map fun i => (i.task, i.worker.host))
    else none
  | _ => none

theorem results_located_sample :
    Whereabouts sampleSettings movedRun ∧ dispatches sampleSettings movedRun < Word.top ∧
    (commands sampleSettings movedRun).filterMap inputsSent? =
      [(⟨"execution7-2-task5"⟩,
        [(⟨"execution7-2-task3"⟩, "10.0.0.3"), (⟨"execution7-2-task4"⟩, "10.0.0.3")]),
        (⟨"execution7-2-task4"⟩, [(⟨"execution7-2-task2"⟩, "10.0.0.2")]),
        (⟨"execution7-2-task3"⟩, [(⟨"execution7-2-task1"⟩, "10.0.0.1")])] ∧
    ((after sampleSettings movedRun).executions.find? ⟨"execution7-2"⟩).map
        (fun e => (e.phase, e.result))
      = some (.finished, some ⟨⟨"execution7-2-task5"⟩, ⟨"w2"⟩, 2⟩) :=
  ⟨results_located sampleSettings movedRun (stamps_nodup (by decide)), by decide +kernel,
    by decide +kernel, by decide +kernel⟩

end Coordinator
end RenderFarm
