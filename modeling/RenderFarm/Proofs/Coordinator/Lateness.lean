import RenderFarm.Proofs.Coordinator.Runs

/-!
# RenderFarm.Proofs.Coordinator.Lateness

Reports that come late, twice or from somebody else change nothing, so each task ends once.

* `Late c event`: a report on a task that is not, or no longer, where the report says.
* `handle_late`: nothing comes of it but the reporter's own list of caches.
* `Settled done c`: no task whose end was told is scheduled, or will be.
* `late_reports_harmless`: both, for every run in which no name is given twice. How the executions
  came to be what they are is nothing but what they were told.
-/

namespace RenderFarm

/-- What a report says about the sessions that its worker holds the resources of. -/
def Event.noted : Event → Option (WorkerName × List SessionName)
  | .taskFinished w _ _ _ cached | .fetchingFinished w _ _ cached => cached.map (Prod.mk w)
  | _ => none

namespace Coordinator

open Execution (Call Sound tasksOf)

/-! ## Late reports -/

def Late (c : Coordinator) : Event → Prop
  | .taskFinished w n _ _ _ | .fetchingFinished w n _ _ | .taskFailed w n _ =>
    ∀ a, c.schedule.inFlight.find? n = some a → a.worker ≠ w
  | .dispatchFailed _ n ticket _ | .probeTimeout n ticket =>
    ∀ a, c.schedule.inFlight.find? n = some a → a.ticket ≠ ticket
  | _ => False

variable {c : Coordinator} {m : Moment} {event : Event}

theorem complete_late {s : Schedule} {w : WorkerName} {n : TaskName}
    (h : ∀ a, s.inFlight.find? n = some a → a.worker ≠ w) : s.complete w n = (s, none) := by
  unfold Schedule.complete
  cases ha : s.inFlight.find? n with
  | none => rfl
  | some a => simp only [h a ha, if_false]

theorem current?_late {s : Schedule} {n : TaskName} {ticket : Ticket}
    (h : ∀ a, s.inFlight.find? n = some a → a.ticket ≠ ticket) : s.current? n ticket = none := by
  unfold Schedule.current?
  cases ha : s.inFlight.find? n with
  | none => rfl
  | some a => simp only [h a ha, if_false]

theorem handle_late (h : Late c event) :
    c.handle m event = { coordinator :=
      match event.noted with
      | some (w, ss) => { c with fleet := c.fleet.updateCaches w ss }
      | none => c } := by
  cases event with
  | taskFinished w n elapsed weight cached =>
    have hs := (still_noteCaches c w cached).schedule
    have hreact : c.react m (.taskFinished w n elapsed weight cached) =
        { coordinator := c.noteCaches w cached } := by
      simp only [react, taskFinished, hs, complete_late h]
    rw [handle_asleep (by rw [hreact]), hreact]
    cases cached <;> rfl
  | fetchingFinished w n elapsed cached =>
    have hs := (still_noteCaches c w cached).schedule
    have hreact : c.react m (.fetchingFinished w n elapsed cached) =
        { coordinator := c.noteCaches w cached } := by
      simp only [react, fetchingFinished, hs]
      cases ha : c.schedule.inFlight.find? n with
      | none => rfl
      | some a => simp only [h a ha, if_false]
    rw [handle_asleep (by rw [hreact]), hreact]
    cases cached <;> rfl
  | taskFailed w n reason =>
    have hreact : c.react m (.taskFailed w n reason) = { coordinator := c } := by
      simp only [react, taskFailed, complete_late h]
    rw [handle_asleep (by rw [hreact]), hreact]
    rfl
  | dispatchFailed w n ticket reason =>
    have hreact : c.react m (.dispatchFailed w n ticket reason) = { coordinator := c } := by
      simp only [react, dispatchFailed, Schedule.abort, current?_late h]
    rw [handle_asleep (by rw [hreact]), hreact]
    rfl
  | probeTimeout n ticket =>
    have hreact : c.react m (.probeTimeout n ticket) = { coordinator := c } := by
      simp only [react, probeTimeout, Schedule.expire, current?_late h]
    rw [handle_asleep (by rw [hreact]), hreact]
    rfl
  | _ => cases h

/-- Nothing changes but what is noted about the caches of the worker that reports. -/
structure Harmless (c : Coordinator) (event : Event) (o : Outcome) : Prop where
  schedule : o.coordinator.schedule = c.schedule
  sessions : o.coordinator.sessions = c.sessions
  executions : o.coordinator.executions = c.executions
  members : o.coordinator.fleet.members = c.fleet.members
  commands : o.commands = []
  quiet : event.noted = none → o.coordinator.fleet.caches = c.fleet.caches
  caches : ∀ w ss, event.noted = some (w, ss) →
    o.coordinator.fleet.caches.keys = c.fleet.caches.keys ∧
    ∀ s before later, c.fleet.caches.find? s = some before →
      o.coordinator.fleet.caches.find? s = some later →
      (s ∈ ss → w ∈ later) ∧ ∀ v, v ≠ w → (v ∈ later ↔ v ∈ before)

theorem late_harmless (h : Late c event) : Harmless c event (c.handle m event) := by
  rw [handle_late h]
  cases hnoted : event.noted with
  | none =>
    refine ⟨rfl, rfl, rfl, rfl, rfl, fun _ => rfl, ?_⟩
    intro w ss hsome
    rw [hnoted] at hsome
    cases hsome
  | some noted =>
    obtain ⟨w, ss⟩ := noted
    refine ⟨rfl, rfl, rfl, rfl, rfl, fun hnone => ?_, fun w' ss' hsome => ⟨?_, ?_⟩⟩
    · rw [hnoted] at hnone
      cases hnone
    · exact OrderedMap.keys_mapValues _ _
    · intro s before later hbefore hlater
      rw [hnoted] at hsome
      cases hsome
      rw [Fleet.find?_updateCaches, hbefore, Option.map_some, Option.some.injEq] at hlater
      by_cases hs : s ∈ ss
      · simp only [hs, if_true] at hlater
        subst hlater
        refine ⟨fun _ => (Fleet.mem_addHolder w before).2 (.inl rfl), fun v hv => ?_⟩
        simp [Fleet.mem_addHolder, hv]
      · simp only [hs, if_false] at hlater
        subst hlater
        refine ⟨fun hmem => absurd hmem hs, fun v hv => ?_⟩
        exact List.mem_erase_of_ne hv

/-! ## Tasks that have ended -/

/-- The task whose end, good or bad, the execution is told. -/
def Notice.outcome? : Notice → Option Tag
  | (x, .finish c _) => some (x, c.task)
  | (x, .fail n _ _) => some (x, n)
  | _ => none

structure Settled (done : List Tag) (c : Coordinator) : Prop where
  keyed : c.schedule.Keyed
  nodup : (c.scheduled ++ done).Nodup
  known : Known (c.scheduled ++ done) c

variable {past : List (Moment × Event)} {done : List Tag} {c' : Coordinator}

theorem Known.mono {tags tags' : List Tag} (h : Known tags c) (hs : ∀ g ∈ tags', g ∈ tags) :
    Known tags' c :=
  fun x n hn => h x n (hs _ hn)

theorem Settled.perm {done' : List Tag} (h : Settled done c) (hp : done'.Perm done) :
    Settled done' c := by
  have hp' := hp.append_left c.scheduled
  exact ⟨h.keyed, hp'.nodup_iff.2 h.nodup, h.known.mono fun g hg => hp'.mem_iff.1 hg⟩

/-- Tasks that are taken off their workers have ended. -/
theorem Settled.frees {s : Schedule} {out : List Tag} (h : Settled done c)
    (hf : c.schedule.Frees out s) (hs : c'.schedule = s) (hx : c'.executions = c.executions) :
    Settled (out ++ done) c' := by
  have hp : (c'.scheduled ++ (out ++ done)).Perm (c.scheduled ++ done) := by
    have hrun := hf.running
    rw [List.perm_iff_count] at hrun ⊢
    intro g
    have := hrun g
    simp only [scheduled, hs, hf.waiting, List.count_append] at *
    omega
  refine ⟨hs ▸ hf.keyed h.keyed, hp.nodup_iff.2 h.nodup, fun x n hn => ?_⟩
  rw [hx]
  exact h.known x n (hp.mem_iff.1 hn)

theorem tell_settled (hg : Grounded past c) (h : Settled done c) (now : Nat) (notice : Notice) :
    Settled done (tell now c notice) := by
  obtain ⟨x, call⟩ := notice
  rcases hg.tell_cases now x call with hsame | ⟨e, he, hname, hsound, ht⟩
  · rwa [hsame]
  · have ha := Execution.respond_accounts hsound call
    have htags := issued_tags hname ha
    have hfind : ∀ y, (tell now c (x, call)).executions.find? y =
        if x = y then some (e.respond call).1 else c.executions.find? y := by
      intro y
      rw [ht.executions, OrderedMap.find?_insert]
    -- all that is scheduled was so before or is issued; the end of the execution drops some of it
    have hsub : ((tell now c (x, call)).scheduled ++ done).Subperm
        (c.scheduled ++ done ++ (tasksOf (e.respond call).2).map Task.tag) := by
      obtain ⟨queue, hp, hs⟩ := ht.queue
      have hp := hp.map Task.tag
      have hs := hs.map Task.tag
      rw [Schedule.tags_queue] at hp
      rw [List.map_append, Schedule.tags_queue, List.map_map] at hs
      have hperm : (c.schedule.waiting ++ (tasksOf (e.respond call).2).map Task.tag ++
          c.schedule.running ++ done).Perm
          (c.scheduled ++ done ++ (tasksOf (e.respond call).2).map Task.tag) := by
        rw [List.perm_iff_count]
        intro g
        simp only [scheduled, List.count_append]
        omega
      simp only [scheduled, ht.steady.running]
      refine List.Subperm.trans ⟨_, (hp.append_right _).append_right _, ?_⟩ hperm.subperm
      exact (hs.append_right _).append_right _
    obtain ⟨tags, hp, hs⟩ := hsub
    rw [htags] at hs
    have hnew := issued_new h.nodup h.known he hname ha
    refine ⟨ht.steady.keyed h.keyed, hp.nodup_iff.1 (hnew.sublist hs), fun y n hn => ?_⟩
    rcases List.mem_append.1 (hs.subset (hp.mem_iff.2 hn)) with hold | hissued
    · exact known_follow h.known he ha hfind y n hold
    · obtain ⟨rfl, hts⟩ := mem_map_mk.1 hissued
      obtain ⟨k, _, hlt, hk⟩ := ha.new_names hts
      exact ⟨(e.respond call).1, by rw [hfind, if_pos rfl], k, hlt, hname ▸ hk⟩

theorem Settled.begun {x : ExecutionName} {e : Execution} (h : Settled done c)
    (hnew : x ∉ c.executions.keys) (hs : c'.schedule = c.schedule)
    (hx : c'.executions = c.executions.insert x e) : Settled done c' := by
  have hscheduled : c'.scheduled = c.scheduled := by simp only [scheduled, hs]
  refine ⟨hs ▸ h.keyed, hscheduled ▸ h.nodup, fun y n hn => ?_⟩
  obtain ⟨f, hf, hk⟩ := h.known y n (hscheduled ▸ hn)
  have hne : x ≠ y := by
    rintro rfl
    exact hnew (OrderedMap.mem_keys_iff.2 ⟨f, hf⟩)
  refine ⟨f, ?_, hk⟩
  rw [hx, OrderedMap.find?_insert, if_neg hne, hf]

/-- An opening takes the tasks off their workers whose ends are told. -/
theorem opening_frees (hk : c.schedule.Keyed) (m : Moment) (event : Event) :
    c.schedule.Frees ((c.opening m event).notices.filterMap Notice.outcome?)
      (c.opening m event).coordinator.schedule := by
  have hopens := opens c m event
  generalize c.opening m event = o at hopens
  cases hopens with
  | still _ hs | fetched hs => exact hs.schedule ▸ .refl c.schedule
  | heard | joined | parted | refused | begun => exact .refl c.schedule
  | resynced =>
    have hf := Schedule.frees_syncWorkers c.schedule
    simp only [resync, List.map_map, List.filterMap_map]
    convert hf _ using 1
    rw [← List.filterMap_eq_map]
    rfl
  | finished _ hc =>
    obtain ⟨ha, hf⟩ := Schedule.frees_complete hc
    rwa [hk.tag ha] at hf
  | failed hc => exact (Schedule.frees_complete hc).2
  | undelivered hc | timedOut hc =>
    exact Schedule.frees_release (Schedule.find?_of_current? hc) _

theorem opening_settled (hg : Grounded past c) (h : Settled done c)
    (hn : (stamps ((m, event) :: past)).Nodup) :
    Settled ((c.opening m event).notices.filterMap Notice.outcome? ++ done)
      (c.opening m event).coordinator := by
  have hf := opening_frees h.keyed m event
  have hopens := opens c m event
  generalize c.opening m event = o at hopens hf
  cases hopens with
  | still _ hs | finished hs | fetched hs => exact h.frees hf rfl hs.executions
  | heard | resynced | failed | undelivered | timedOut | joined | parted | refused =>
    exact h.frees hf rfl rfl
  | begun => exact h.begun (hg.toNamed.fresh hn rfl) rfl rfl

theorem dispatch_settled (h : Settled done c) (now : Nat) :
    Settled done (dispatch now c).coordinator := by
  obtain ⟨as, hd⟩ := Schedule.dealt_dispatch c.schedule c.fleet now
  have hnames : (c.scheduled.map Prod.snd).Nodup :=
    (h.known.names h.nodup).sublist ((List.sublist_append_left _ _).map _)
  have hsub := (List.subperm_append_right done).2 (hd.scheduled h.keyed hnames)
  obtain ⟨tags, hp, hs⟩ := hsub
  refine ⟨hd.keyed h.keyed, hp.nodup_iff.1 (h.nodup.sublist hs), fun x n hn => ?_⟩
  exact h.known x n (hs.subset (hp.mem_iff.2 hn))

/-! ## What the executions were told -/

/-- All that was told in a run; the latest comes first. -/
def delivered (settings : Settings) : List (Moment × Event) → List Notice
  | [] => []
  | (m, event) :: past =>
    ((after settings past).opening m event).notices.reverse ++ delivered settings past

def callsFor (x : ExecutionName) (notices : List Notice) : List Call :=
  (notices.filter fun p => p.1 = x).map Prod.snd

structure Grown (notices : List Notice) (c : Coordinator) : Prop where
  history : ∀ x e, c.executions.find? x = some e → ∃ policy session parallel fetches now,
    e = (Execution.create policy x session parallel fetches now).after (callsFor x notices)
  known : ∀ p ∈ notices, p.1 ∈ c.executions.keys

theorem Grown.same {notices : List Notice} (h : Grown notices c)
    (hx : c'.executions = c.executions) : Grown notices c' :=
  ⟨hx ▸ h.history, hx ▸ h.known⟩

theorem tell_grown {notices : List Notice} {notice : Notice} (hg : Grounded past c)
    (h : Grown notices c) (hk : notice.1 ∈ c.executions.keys) (now : Nat) :
    Grown (notice :: notices) (tell now c notice) ∧
    (tell now c notice).executions.keys = c.executions.keys := by
  obtain ⟨x, call⟩ := notice
  obtain ⟨e, he⟩ := OrderedMap.mem_keys_iff.1 hk
  obtain ⟨hname, hsound⟩ := hg.sound he
  have ht := told hname hsound he now call
  have hkeys : (tell now c (x, call)).executions.keys = c.executions.keys := by
    rw [ht.executions, OrderedMap.keys_insert_of_mem _ hk]
  refine ⟨⟨fun y f hf => ?_, fun p hp => ?_⟩, hkeys⟩
  · rw [ht.executions, OrderedMap.find?_insert] at hf
    split at hf
    · rename_i hy
      cases hf
      subst hy
      obtain ⟨policy, session, parallel, fetches, created, heq⟩ := h.history x e he
      refine ⟨policy, session, parallel, fetches, created, ?_⟩
      have hcalls : callsFor x ((x, call) :: notices) = call :: callsFor x notices := by
        simp [callsFor]
      rw [hcalls, Execution.after, ← heq]
    · rename_i hy
      have hcalls : callsFor y ((x, call) :: notices) = callsFor y notices := by
        simp [callsFor, hy]
      rw [hcalls]
      exact h.history y f hf
  · rw [hkeys]
    rcases List.mem_cons.1 hp with rfl | hp
    · exact hk
    · exact h.known p hp

theorem tellAll_grown {told notices : List Notice} (hg : Grounded past c) (h : Grown told c)
    (hk : ∀ p ∈ notices, p.1 ∈ c.executions.keys) (now : Nat) :
    Grown (notices.reverse ++ told) (tellAll now c notices) := by
  induction notices generalizing c told with
  | nil => exact h
  | cons notice notices ih =>
    obtain ⟨h', hkeys⟩ := tell_grown hg h (hk notice List.mem_cons_self) now
    have hrest := ih (tell_grounded now notice hg) h' fun p hp =>
      hkeys ▸ hk p (List.mem_cons_of_mem _ hp)
    rw [List.reverse_cons, List.append_assoc]
    exact hrest

/-- Only executions that there are have tasks that end. -/
theorem Settled.flight (h : Settled done c) {n : TaskName} {a : Assignment}
    (ha : c.schedule.inFlight.find? n = some a) : a.task.execution ∈ c.executions.keys := by
  have hmem : a.task.tag ∈ c.scheduled ++ done :=
    List.mem_append_left _ (List.mem_append_right _ (Schedule.mem_running ha))
  obtain ⟨e, he, _⟩ := h.known a.task.execution a.task.name hmem
  exact OrderedMap.mem_keys_iff.2 ⟨e, he⟩

theorem notices_known (h : Settled done c) {p : Notice} (hp : p ∈ (c.opening m event).notices) :
    p.1 ∈ (c.opening m event).coordinator.executions.keys := by
  have hopens := opens c m event
  generalize c.opening m event = o at hopens hp
  cases hopens with
  | still | heard | joined | parted | refused => cases hp
  | resynced =>
    obtain ⟨t, ht, rfl⟩ := List.mem_map.1 hp
    obtain ⟨a, ha, rfl⟩ := List.mem_map.1 ht
    obtain ⟨n, ha⟩ := OrderedMap.mem_values_iff.1 (List.mem_filter.1 ha).1
    exact h.flight ha
  | finished hs hc =>
    cases List.mem_singleton.1 hp
    rw [hs.executions]
    exact h.flight (Schedule.frees_complete hc).1
  | fetched hs ha =>
    cases List.mem_singleton.1 hp
    rw [hs.executions]
    exact h.flight ha
  | failed hc =>
    cases List.mem_singleton.1 hp
    exact h.flight (Schedule.frees_complete hc).1
  | undelivered hc | timedOut hc =>
    cases List.mem_singleton.1 hp
    exact h.flight (Schedule.find?_of_current? hc)
  | begun =>
    cases List.mem_singleton.1 hp
    exact OrderedMap.mem_keys_insert.2 (.inl rfl)

theorem opening_grown {notices : List Notice} (hg : Grounded past c) (h : Grown notices c)
    (hn : (stamps ((m, event) :: past)).Nodup) :
    Grown notices (c.opening m event).coordinator := by
  have hopens := opens c m event
  generalize c.opening m event = o at hopens
  cases hopens with
  | still _ hs | finished hs | fetched hs => exact h.same hs.executions
  | heard | resynced | failed | undelivered | timedOut | joined | parted | refused =>
    exact h.same rfl
  | begun _ he =>
    have hnew := hg.toNamed.fresh hn rfl
    refine ⟨fun x f hf => ?_, fun p hp => OrderedMap.mem_keys_insert.2 (.inr (h.known p hp))⟩
    rw [OrderedMap.find?_insert] at hf
    split at hf
    · rename_i hx
      cases hf
      subst hx
      -- nobody has told an execution anything before there was one
      have hcalls : callsFor (c.upcomingName m) notices = [] := by
        simp only [callsFor, List.map_eq_nil_iff, List.filter_eq_nil_iff, decide_eq_true_eq]
        intro p hp hx
        exact hnew (hx ▸ h.known p hp)
      rw [hcalls]
      exact ⟨_, _, _, _, _, he⟩
    · exact h.history x f hf

theorem after_settled (settings : Settings) {past : List (Moment × Event)}
    (hn : (stamps past).Nodup) :
    Settled ((delivered settings past).filterMap Notice.outcome?) (after settings past) ∧
    Grown (delivered settings past) (after settings past) := by
  induction past with
  | nil =>
    refine ⟨⟨?_, List.nodup_nil, ?_⟩, ?_, ?_⟩
    · intro n a ha
      cases ha
    · intro x n hn
      cases hn
    · intro x e he
      cases he
    · intro p hp
      cases hp
  | cons p past ih =>
    obtain ⟨m, event⟩ := p
    obtain ⟨hsettled, hgrown⟩ := ih (stamps_tail hn)
    have hg := after_grounded settings past
    have hg' := opening_grounded hg m event
    refine ⟨?_, ?_⟩
    · have hperm : ((delivered settings ((m, event) :: past)).filterMap Notice.outcome?).Perm
          (((after settings past).opening m event).notices.filterMap Notice.outcome? ++
            (delivered settings past).filterMap Notice.outcome?) := by
        rw [delivered, List.filterMap_append]
        exact ((List.reverse_perm _).filterMap _).append_right _
      refine (handle_keeps (P := fun c => Grounded ((m, event) :: past) c ∧ Settled _ c)
        ⟨hg', opening_settled hg hsettled hn⟩ ?_ ?_).2.perm hperm
      · rintro c notice ⟨hg, h⟩
        exact ⟨tell_grounded m.now notice hg, tell_settled hg h m.now notice⟩
      · rintro c ⟨hg, h⟩
        exact ⟨hg.congr rfl rfl fun _ hs => hs, dispatch_settled h m.now⟩
    · have hreact := tellAll_grown hg' (opening_grown hg hgrown hn)
        (fun p hp => notices_known hsettled hp) m.now
      rw [← react_eq] at hreact
      exact handle_of_react hreact fun _ h => h.same rfl

/-! ## The state after a run -/

/-- Every task has ended at most once for its execution, and the executions are what they were told,
so nothing else has come of the reports. -/
structure OnceEach (settings : Settings) (past : List (Moment × Event)) : Prop where
  outcomes : (((delivered settings past).filterMap Notice.outcome?).map Prod.snd).Nodup
  history : ∀ x e, (after settings past).executions.find? x = some e →
    ∃ policy session parallel fetches now, e =
      (Execution.create policy x session parallel fetches now).after
        (callsFor x (delivered settings past))

/-- Reports that come late, twice or from somebody else do no harm, in no state at all. However
reports, timeouts, failed deliveries and losses of workers interleave in a run, no task ends twice
for its execution, as long as no name comes twice (`stamps_nodup`). -/
theorem late_reports_harmless (settings : Settings) (past : List (Moment × Event))
    (hn : (stamps past).Nodup) :
    (∀ (c : Coordinator) m event, Late c event → Harmless c event (c.handle m event)) ∧
    OnceEach settings past := by
  obtain ⟨hsettled, hgrown⟩ := after_settled settings hn
  refine ⟨fun c m event => late_harmless, ?_, hgrown.history⟩
  have hsub := List.sublist_append_right (after settings past).scheduled
    ((delivered settings past).filterMap Notice.outcome?)
  exact (hsettled.known.names hsettled.nodup).sublist (hsub.map _)

/-- The worker reports the first task, which it has reported twice, once more. -/
theorem late_reports_harmless_sample :
    Harmless (after sampleSettings sampleRun) sampleRun.finished
      ((after sampleSettings sampleRun).handle ⟨"7", 0⟩ sampleRun.finished) ∧
    OnceEach sampleSettings sampleRun ∧
    ((delivered sampleSettings sampleRun).filterMap Notice.outcome?).map Prod.snd
      = [⟨"execution7-2-task1"⟩] := by
  have h := late_reports_harmless sampleSettings sampleRun (stamps_nodup (by decide))
  refine ⟨h.1 _ _ _ fun a ha => ?_, h.2, by decide +kernel⟩
  have hnone : (after sampleSettings sampleRun).schedule.inFlight.find? ⟨"execution7-2-task1"⟩
      = none := by decide +kernel
  rw [hnone] at ha
  cases ha

end Coordinator
end RenderFarm
