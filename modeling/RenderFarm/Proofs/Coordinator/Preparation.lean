import RenderFarm.Proofs.Coordinator.Revisions
import RenderFarm.Proofs.Fleet.Condemnation

/-!
# RenderFarm.Proofs.Coordinator.Preparation

A task that is given to a worker can always be sent to it.

* `Hosted c`: whoever is idle or busy is in the cluster.
* `Awaited c t`: the execution of a waiting task goes on, and its source is still open.
* `assigned settings past`: what the last event of a run has given to workers.
* `assignments_prepared`: all of it is sent, in every run in which no name is given twice.
-/

namespace RenderFarm

namespace Schedule

variable {s s' : Schedule} {n : TaskName} {a : Assignment} {v w : WorkerName}

theorem enlisted_complete (h : s.complete w n = (s', some a)) (hv : s'.Enlisted v) :
    s.Enlisted v := by
  unfold complete at h
  split at h
  · cases h
  · split at h
    · dsimp only at h
      split at h
      · rename_i hbusy
        cases h
        rcases hv with hv | hv
        · rcases List.mem_append.1 hv with hv | hv
          · exact .inl hv
          · exact .inr (List.mem_singleton.1 hv ▸ OrderedMap.contains_iff.1 hbusy)
        · exact .inr (OrderedMap.mem_keys_erase.1 hv).2
      · cases h
        exact hv
    · cases h

theorem enlisted_release (h : (s.release n w).Enlisted v) : s.Enlisted v :=
  h.imp (fun hv => (List.mem_filter.1 hv).1) fun hv => (OrderedMap.mem_keys_erase.1 hv).2

theorem enlisted_enlist {ws : List WorkerName} (h : (s.enlist ws).Enlisted v) :
    v ∈ ws ∨ s.Enlisted v := by
  induction ws generalizing s with
  | nil => exact .inr h
  | cons w ws ih =>
    simp only [enlist] at h
    split at h
    · exact (ih h).imp_left (List.mem_cons_of_mem w)
    · rcases ih h with hv | hv | hv
      · exact .inl (List.mem_cons_of_mem w hv)
      · rcases List.mem_append.1 hv with hv | hv
        · exact .inr (.inl hv)
        · exact .inl (List.mem_singleton.1 hv ▸ List.mem_cons_self)
      · exact .inr (.inr hv)

theorem enlisted_syncWorkers {members : List WorkerName}
    (h : (s.syncWorkers members).1.Enlisted v) : v ∈ members := by
  rcases enlisted_enlist h with hv | hv | hv
  · exact hv
  · simpa using (List.mem_filter.1 hv).2
  · obtain ⟨kind, hkind⟩ := OrderedMap.mem_keys_iff.1 hv
    simp only [OrderedMap.find?_filter, Option.filter_eq_some_iff] at hkind
    have hbusy : v ∈ s.busy.keys := OrderedMap.mem_keys_iff.2 ⟨kind, hkind.1⟩
    simpa [hbusy] using hkind.2

end Schedule

namespace Coordinator

open Execution (Call Sound)

variable {past : List (Moment × Event)} {c c' : Coordinator} {m : Moment} {event : Event}

/-! ## Workers -/

def Hosted (c : Coordinator) : Prop := ∀ v, c.schedule.Enlisted v → v ∈ c.fleet.members.keys

theorem Hosted.mono (h : Hosted c) (hs : ∀ v, c'.schedule.Enlisted v → c.schedule.Enlisted v)
    (hf : ∀ v ∈ c.fleet.members.keys, v ∈ c'.fleet.members.keys) : Hosted c' := by
  intro v hv
  exact hf v (h v (hs v hv))

theorem mem_members_pong {f : Fleet} {v w : WorkerName} {ss : List SessionName}
    (h : v ∈ f.members.keys) : v ∈ (f.pong w ss).1.members.keys := by
  obtain ⟨member, hm⟩ := OrderedMap.mem_keys_iff.1 h
  rw [OrderedMap.mem_keys_iff, Fleet.find?_pong, hm]
  exact ⟨_, rfl⟩

theorem mem_members_evict {f : Fleet} {v w : WorkerName} (h : v ∈ f.members.keys) :
    v ∈ (f.evict w).1.members.keys := by
  obtain ⟨member, hm⟩ := OrderedMap.mem_keys_iff.1 h
  have hsome := Fleet.find?_evict f w v
  rw [hm] at hsome
  obtain ⟨member', hm', _⟩ := Option.map_eq_some_iff.1 hsome
  exact OrderedMap.mem_keys_iff.2 ⟨member', hm'⟩

theorem opening_hosted (h : Hosted c) (m : Moment) (event : Event) :
    Hosted (c.opening m event).coordinator := by
  have hopens := opens c m event
  generalize c.opening m event = o at hopens
  cases hopens with
  | still _ hs | fetched hs =>
    exact h.mono (by simp [hs.schedule]) (by simp [hs.members])
  | joined | parted | refused | begun => exact h.mono (fun _ hv => hv) fun _ hv => hv
  | heard => exact h.mono (fun _ hv => hv) fun _ hv => mem_members_pong hv
  | resynced =>
    intro v hv
    have halive := Fleet.mem_live.1 (Schedule.enlisted_syncWorkers hv)
    obtain ⟨member, hm, _⟩ := Fleet.isAlive_iff.1 halive
    exact OrderedMap.mem_keys_iff.2 ⟨member, hm⟩
  | finished hs hc =>
    exact h.mono (fun _ hv => Schedule.enlisted_complete hc hv) (by simp [hs.members])
  | failed hc => exact h.mono (fun _ hv => Schedule.enlisted_complete hc hv) fun _ hv => hv
  | undelivered | timedOut =>
    exact h.mono (fun _ hv => Schedule.enlisted_release hv) fun _ hv => mem_members_evict hv

theorem tell_hosted (now : Nat) (notice : Notice) (h : Hosted c) : Hosted (tell now c notice) := by
  obtain ⟨hfleet, _, _, hsteady⟩ := tell_frame now c notice
  exact h.mono (fun v hv => (hsteady.enlisted v).1 hv) (by simp [hfleet])

theorem dispatch_hosted (now : Nat) (h : Hosted c) : Hosted (dispatch now c).coordinator := by
  obtain ⟨as, hd⟩ := Schedule.dealt_dispatch c.schedule c.fleet now
  refine h.mono ?_ (by simp [members_dispatch])
  rintro v (hv | hv)
  · exact .inl (hd.workers.subset (List.mem_append_right _ hv))
  · rcases hd.busy_keys.1 hv with hv | hv
    · exact .inl (hd.workers.subset (List.mem_append_left _ hv))
    · exact .inr hv

/-! ## Waiting tasks -/

structure Awaited (c : Coordinator) (t : Task) : Prop where
  running : ∃ e, c.executions.find? t.execution = some e ∧ e.isTerminal = false
  unplaced : t.Unplaced

def Queued (c : Coordinator) : Prop := ∀ t ∈ c.schedule.pending, Awaited c t

theorem opening_queued (h : Queued c) (m : Moment) (event : Event) :
    Queued (c.opening m event).coordinator := by
  intro t ht
  rw [opening_pending] at ht
  obtain ⟨⟨f, hf, hrun⟩, hunplaced⟩ := h t ht
  refine ⟨?_, hunplaced⟩
  have hopens := opens c m event
  generalize c.opening m event = o at hopens
  cases hopens with
  | still _ hs | finished hs | fetched hs => exact ⟨f, hs.executions ▸ hf, hrun⟩
  | heard | resynced | failed | undelivered | timedOut | joined | parted | refused =>
    exact ⟨f, hf, hrun⟩
  | begun _ he =>
    simp only [OrderedMap.find?_insert]
    split
    · refine ⟨_, rfl, ?_⟩
      rw [he]
      simp only [Execution.isTerminal, Execution.create]
      split <;> rfl
    · exact ⟨f, hf, hrun⟩

theorem tell_queued (hg : Grounded past c) (h : Queued c) (now : Nat) (notice : Notice) :
    Queued (tell now c notice) := by
  obtain ⟨x, call⟩ := notice
  rcases hg.tell_cases now x call with hsame | ⟨e, he, hname, hsound, htold⟩
  · rwa [hsame]
  · have hrev := tell_revises hname hsound he now call
    -- what waits of an execution waits because it goes on, before and after it is told
    have hgoes : e.isTerminal = false → ∀ t ∈ (tell now c (x, call)).schedule.pending,
        t.execution = x → (e.respond call).1.isTerminal = false := by
      intro hrun t ht hx
      rw [← Bool.not_eq_true]
      intro hover
      exact hrev.ended hrun hover t ht hx
    intro t ht
    rcases hrev.pending t ht with ⟨u, hu, hrevised⟩ | hissued
    · obtain ⟨⟨f, hf, hrun⟩, hunplaced⟩ := h u hu
      obtain ⟨htag, _, hwork, _⟩ := hrevised.same
      have hexecution : t.execution = u.execution := congrArg Prod.fst htag
      refine ⟨?_, ?_⟩
      · rw [htold.executions, OrderedMap.find?_insert]
        split
        · rename_i hx
          rw [← hexecution, ← hx, he] at hf
          cases hf
          exact ⟨_, rfl, hgoes hrun t ht hx.symm⟩
        · exact ⟨f, hexecution ▸ hf, hrun⟩
      · intro seed w
        rw [hwork]
        exact hunplaced seed w
    · have hx : t.execution = x :=
        ((Execution.respond_accounts hsound call).owner t hissued).1.trans hname
      have hrun : e.isTerminal = false := by
        rw [← Bool.not_eq_true]
        intro hover
        rw [Execution.respond_terminal hover] at hissued
        cases hissued
      refine ⟨?_, (Execution.respond_fresh e call t hissued).2⟩
      rw [htold.executions, OrderedMap.find?_insert, if_pos hx.symm]
      exact ⟨_, rfl, hgoes hrun t ht hx⟩

theorem dispatch_queued (now : Nat) (h : Queued c) : Queued (dispatch now c).coordinator := by
  intro t ht
  obtain ⟨hrun, hunplaced⟩ := h t ((Schedule.draws_dispatch c.schedule c.fleet now).pending t ht)
  exact ⟨hrun, hunplaced⟩

/-! ## Runs -/

theorem after_hosted (settings : Settings) (past : List (Moment × Event)) :
    Hosted (after settings past) ∧ Queued (after settings past) := by
  induction past with
  | nil =>
    refine ⟨?_, nofun⟩
    rintro v (hv | hv) <;> cases hv
  | cons p past ih =>
    obtain ⟨m, event⟩ := p
    obtain ⟨hhosted, hqueued⟩ := ih
    have hgrounded := opening_grounded (after_grounded settings past) m event
    refine (handle_keeps (P := fun c => Grounded ((m, event) :: past) c ∧ Hosted c ∧ Queued c)
      ⟨hgrounded, opening_hosted hhosted m event, opening_queued hqueued m event⟩ ?_ ?_).2
    · rintro c notice ⟨hg, hh, hq⟩
      exact ⟨tell_grounded m.now notice hg, tell_hosted m.now notice hh,
        tell_queued hg hq m.now notice⟩
    · rintro c ⟨hg, hh, hq⟩
      exact ⟨hg.congr rfl rfl fun _ hs => hs, dispatch_hosted m.now hh, dispatch_queued m.now hq⟩

theorem reacted_hosted (settings : Settings) (past : List (Moment × Event)) (m : Moment)
    (event : Event) : Hosted ((after settings past).react m event).coordinator ∧
      Queued ((after settings past).react m event).coordinator := by
  obtain ⟨hhosted, hqueued⟩ := after_hosted settings past
  have hgrounded := opening_grounded (after_grounded settings past) m event
  refine (react_keeps (P := fun c => Grounded ((m, event) :: past) c ∧ Hosted c ∧ Queued c)
    ⟨hgrounded, opening_hosted hhosted m event, opening_queued hqueued m event⟩ ?_).2
  rintro c notice ⟨hg, hh, hq⟩
  exact ⟨tell_grounded m.now notice hg, tell_hosted m.now notice hh,
    tell_queued hg hq m.now notice⟩

/-! ## Assignments -/

/-- What the last event of a run has given to workers. -/
def assigned (settings : Settings) : List (Moment × Event) → List Assignment
  | [] => []
  | (m, event) :: past =>
    let o := (after settings past).react m event
    if o.wakes then (o.coordinator.schedule.dispatch o.coordinator.fleet m.now).assignments.getD []
    else []

/-- Among the commands is the one that sends the task. -/
structure Prepared (c : Coordinator) (cmds : List Command) (a : Assignment) : Prop where
  sent : ∃ w s, c.fleet.worker? a.worker = some w ∧ c.sessions.find? a.task.session = some s ∧
    .run w (taskMessage c.fleet s a.task) a.ticket ∈ cmds
  running : ∃ e, c.executions.find? a.task.execution = some e ∧ e.isTerminal = false
  /-- A worker that is named as the source is alive, and the message says where it is now. -/
  near : ∀ seed v, a.task.work = .produce seed (.cached v) → c.fleet.isAlive v = true ∧
    ∃ w, c.fleet.worker? v = some w ∧
      ∀ s, (taskMessage c.fleet s a.task).source = some (.worker w.address)

theorem worker?_of_mem {f : Fleet} {v : WorkerName} (h : v ∈ f.members.keys) :
    ∃ w, f.worker? v = some w := by
  obtain ⟨member, hm⟩ := OrderedMap.mem_keys_iff.1 h
  exact ⟨member.worker, by rw [Fleet.worker?, hm, Option.map_some]⟩

theorem deliver_prepared {a : Assignment} {w : Worker} {s : Session}
    (hw : c.fleet.worker? a.worker = some w) (hs : c.sessions.find? a.task.session = some s) :
    c.deliver a = [.postAfter a.task.timeout (.probeTimeout a.task.name a.ticket),
      .run w (taskMessage c.fleet s a.task) a.ticket] := by
  simp only [deliver, prepare_eq_ok.2 ⟨hw, s, hs, rfl⟩]

theorem near_prepared {f : Fleet} {t : Task} {seed : Nat} {v : WorkerName}
    (hwork : t.work = .produce seed (.cached v)) (h : f.isAlive v = true) :
    ∃ w, f.worker? v = some w ∧ ∀ s, (taskMessage f s t).source = some (.worker w.address) := by
  obtain ⟨member, hm, _⟩ := Fleet.isAlive_iff.1 h
  obtain ⟨w, hw⟩ := worker?_of_mem (OrderedMap.mem_keys_iff.2 ⟨member, hm⟩)
  refine ⟨w, hw, ?_⟩
  intro s
  simp only [taskMessage, hwork, sourceMessage, hw]

theorem Queued.runs (h : Queued c) (hl : Loaded c) {t : Task} (ht : t ∈ c.schedule.pending) :
    c.Runs t.execution t.session := by
  obtain ⟨e, he, hrun⟩ := (h t ht).running
  have hsuits := suits_gist.1 (hl.waiting t.gist (List.mem_map_of_mem ht))
  exact ⟨e, he, (hsuits e he).1.symm, hrun⟩

/-- A pass sends all that it assigns: the worker was idle, so it is in the cluster, and the
execution goes on, so its session is there. -/
theorem dispatch_prepared (hh : Hosted c) (hq : Queued c) (ho : Occupied c) (hl : Loaded c)
    (now : Nat) : ∀ a ∈ (c.schedule.dispatch c.fleet now).assignments.getD [],
      Prepared (dispatch now c).coordinator ((dispatch now c).coordinator.deliver a) a := by
  intro a ha
  obtain ⟨⟨t, ht, work, htask, _, hsource⟩, hidle⟩ :=
    (Schedule.draws_dispatch c.schedule c.fleet now).made a ha
  have hmembers := members_dispatch now c
  obtain ⟨⟨e, he, hrun⟩, hunplaced⟩ := hq t ht
  obtain ⟨w, hw⟩ := worker?_of_mem (f := (dispatch now c).coordinator.fleet)
    (hmembers ▸ hh a.worker (.inl hidle))
  obtain ⟨s, hs⟩ := ho.housed t.execution t.session (hq.runs hl ht)
  have hfind : (dispatch now c).coordinator.sessions.find? a.task.session = some s := by
    rw [htask]
    exact hs
  refine ⟨⟨w, s, hw, hfind, ?_⟩, ⟨e, by rw [htask]; exact he, hrun⟩, ?_⟩
  · rw [deliver_prepared hw hfind]
    exact List.mem_cons_of_mem _ List.mem_cons_self
  · intro seed v hwork
    have hcached : work = .produce seed (.cached v) := by
      rw [htask] at hwork
      exact hwork
    have halive : (dispatch now c).coordinator.fleet.isAlive v = true := by
      rw [Fleet.isAlive_congr hmembers]
      rcases hsource seed v hcached with hplaced | halive
      · exact absurd (hplaced.trans hcached) (hunplaced seed v)
      · exact halive
    exact ⟨halive, near_prepared hwork halive⟩

theorem Prepared.mono {cmds cmds' : List Command} {a : Assignment} (h : Prepared c cmds a)
    (hs : ∀ cmd ∈ cmds, cmd ∈ cmds') : Prepared c cmds' a := by
  obtain ⟨w, s, hw, hfind, hsent⟩ := h.sent
  exact ⟨⟨w, s, hw, hfind, hs _ hsent⟩, h.running, h.near⟩

/-- In every run in which no name is given twice, whatever is given to a worker is sent to it, and
no delivery fails before it is tried. -/
theorem assignments_prepared (settings : Settings) (past : List (Moment × Event))
    (hn : (stamps past).Nodup) :
    (∀ a ∈ assigned settings past, Prepared (after settings past) (given settings past) a) ∧
    ∀ w n ticket reason, .post (.dispatchFailed w n ticket reason) ∉ given settings past := by
  cases past with
  | nil =>
    refine ⟨nofun, ?_⟩
    intro w n ticket reason hc
    cases List.mem_singleton.1 hc
  | cons p past =>
    obtain ⟨m, event⟩ := p
    have hgrounded := after_grounded settings past
    have hsettled := (after_settled settings (stamps_tail hn)).1
    obtain ⟨hh, hq⟩ := reacted_hosted settings past m event
    have ho : Occupied ((after settings past).react m event).coordinator :=
      reacted_occupied hgrounded (after_occupied settings (stamps_tail hn)) hn
    have hl : Loaded ((after settings past).react m event).coordinator :=
      reacted_loaded hgrounded hsettled (after_loaded settings (stamps_tail hn)) hn
    have hpass := dispatch_prepared hh hq ho hl m.now
    refine ⟨?_, ?_⟩
    · intro a ha
      simp only [assigned] at ha
      split at ha
      · rename_i hwakes
        simp only [after, given, handle, hwakes, if_true]
        refine (hpass a ha).mono ?_
        intro cmd hc
        exact List.mem_append_right _ (List.mem_flatMap.2 ⟨a, ha, hc⟩)
      · cases ha
    · intro w n ticket reason hc
      obtain ⟨_, hc⟩ := handle_commands hc rfl
      obtain ⟨a, ha, hc⟩ := List.mem_flatMap.1 hc
      obtain ⟨v, s, hv, hs, _⟩ := (hpass a ha).sent
      have hc : .post (.dispatchFailed w n ticket reason) ∈
          (dispatch m.now ((after settings past).react m event).coordinator).coordinator.deliver a :=
        hc
      rw [deliver_prepared hv hs] at hc
      simp at hc

/-- The worker fetches the resources for the first task and has them for the second. -/
def fetchingRun : List (Moment × Event) :=
  [.taskFinished ⟨"w"⟩ ⟨"execution7-2-task1"⟩ 20 none none,
    .fetchingFinished ⟨"w"⟩ ⟨"execution7-2-task1"⟩ 10 none,
    .createExecution ⟨⟨"session7-1"⟩, none, 4, none⟩,
    .createSession ⟨none, [⟨"file", "/scene"⟩], "p", "f"⟩,
    .pong ⟨⟨"w"⟩, [], []⟩,
    .instancesListed (.ok [⟨⟨"w"⟩, "10.0.0.1", 5000, 9000⟩])].map fun e => (⟨"7", 0⟩, e)

theorem assignments_prepared_sample :
    ((∀ a ∈ assigned sampleSettings fetchingRun, Prepared (after sampleSettings fetchingRun)
        (given sampleSettings fetchingRun) a) ∧
      ∀ w n ticket reason,
        .post (.dispatchFailed w n ticket reason) ∉ given sampleSettings fetchingRun) ∧
    (assigned sampleSettings fetchingRun).map (fun a => a.task.work)
      = [.produce 2 (.cached ⟨"w"⟩)] :=
  ⟨assignments_prepared sampleSettings fetchingRun (stamps_nodup (by decide)), by decide +kernel⟩

end Coordinator
end RenderFarm
