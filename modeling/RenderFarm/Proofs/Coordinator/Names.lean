import RenderFarm.Proofs.Coordinator.Deletions
import RenderFarm.Proofs.Coordinator.Issued
import RenderFarm.Proofs.Coordinator.Scenes

/-!
# RenderFarm.Proofs.Coordinator.Names

No name is given twice, and nothing is kept in the place of something else.

* `executionNames settings past`: the names that the requests for executions of a run were given,
  also those that were refused; `departed settings past`: the sessions that were deleted.
* `mem_sessions_iff`, `Housed`: there are exactly the sessions and executions that were announced,
  and every one is what was requested under its name.
* `handle_flights`: an event adds assignments behind those that it leaves.
* `names_distinct`: all of this, in every run that asks for fewer names than there are words,
  whatever the clock shows.
-/

namespace RenderFarm

/-- The session that the reply says is deleted. -/
def Event.closes? : Event → Option Reply → Option SessionName
  | .deleteSession name _, some .sessionDeleted => some name
  | _, _ => none

namespace Coordinator

open Execution (seedsOf)

/-- The name that a request for an execution is given, whether it is refused or not. -/
def namesFor (c : Coordinator) (m : Moment) : Event → List ExecutionName
  | .createExecution _ => [c.upcomingName m]
  | _ => []

def executionNames (settings : Settings) : List (Moment × Event) → List ExecutionName
  | [] => []
  | (m, event) :: past =>
    executionNames settings past ++ (after settings past).namesFor m event

def departed (settings : Settings) : List (Moment × Event) → List SessionName
  | [] => []
  | (m, event) :: past =>
    departed settings past ++ (event.closes? ((after settings past).handle m event).reply).toList

variable {settings : Settings} {past : List (Moment × Event)} {c c' : Coordinator} {m : Moment}
  {event : Event} {ps : List (ExecutionName × ExecutionRequest)} {s : SessionName}
  {x : ExecutionName}

/-! ## Names of executions -/

theorem mem_namesFor (h : x ∈ c.namesFor m event) :
    event.asksName = true ∧ x = c.upcomingName m := by
  cases event with
  | createExecution r => exact ⟨rfl, List.mem_singleton.1 h⟩
  | _ => cases h

theorem executionNames_stamped (settings : Settings) (past : List (Moment × Event)) :
    ∀ x ∈ executionNames settings past, ∃ stamp ∈ stamps past, x = stampedName stamp := by
  induction past with
  | nil => exact nofun
  | cons p past ih =>
    obtain ⟨m, event⟩ := p
    intro x hx
    rcases List.mem_append.1 hx with hx | hx
    · obtain ⟨stamp, hstamp, heq⟩ := ih x hx
      exact ⟨stamp, mem_stamps_cons (m, event) hstamp, heq⟩
    · obtain ⟨hev, hname⟩ := mem_namesFor hx
      rw [(after_grounded settings past).toNamed.upcoming] at hname
      exact ⟨_, by simp [stamps, hev], hname⟩

/-- A name has a stamp that no name before it had. -/
theorem executionNames_nodup (settings : Settings) {past : List (Moment × Event)}
    (hn : (stamps past).Nodup) : (executionNames settings past).Nodup := by
  induction past with
  | nil => exact List.nodup_nil
  | cons p past ih =>
    obtain ⟨m, event⟩ := p
    have hone : ((after settings past).namesFor m event).Nodup := by
      cases event with
      | createExecution r => exact List.nodup_singleton _
      | _ => exact List.nodup_nil
    refine List.nodup_append.2 ⟨ih (stamps_tail hn), hone, ?_⟩
    rintro y hold z hnew rfl
    obtain ⟨stamp, hstamp, heq⟩ := executionNames_stamped settings past y hold
    obtain ⟨hev, hname⟩ := mem_namesFor hnew
    rw [(after_grounded settings past).toNamed.upcoming, heq] at hname
    simp only [stamps, hev, if_true, List.nodup_cons] at hn
    exact hn.1 (stampedName_inj hname ▸ hstamp)

theorem accepted_sublist (settings : Settings) (past : List (Moment × Event)) :
    ((accepted settings past).map Prod.fst).Sublist (executionNames settings past) := by
  induction past with
  | nil => exact .refl _
  | cons p past ih =>
    obtain ⟨m, event⟩ := p
    rw [accepted, List.map_append]
    refine ih.append ?_
    rw [handle_reply]
    cases event with
    | createExecution r =>
      rw [begins?_createExecution]
      split
      · exact .refl _
      · exact List.nil_sublist _
    | _ => exact .refl _

/-! ## Sessions -/

theorem mem_opens? : s ∈ ((event.opens? (c.handle m event).reply).toList).map Prod.fst ↔
    c.Joins m event s := by
  rw [handle_reply]
  cases event with
  | createSession r =>
    rw [joins_iff]
    exact List.mem_singleton
  | _ =>
    refine iff_of_false List.not_mem_nil ?_
    rintro ⟨⟨_, heq⟩, _⟩
    cases heq

theorem mem_closes? : s ∈ (event.closes? (c.handle m event).reply).toList ↔
    c.Deletes m event s := by
  cases event with
  | deleteSession name owner =>
    rw [deletes_iff, handle_reply]
    simp only [react, deleteSession]
    cases hd : c.sessions.delete name owner with
    | error f =>
      refine iff_of_false List.not_mem_nil ?_
      rintro ⟨_, _, _, heq, hok⟩
      cases heq
      cases hd.symm.trans hok
    | ok parted =>
      refine List.mem_singleton.trans ⟨?_, ?_⟩
      · rintro rfl
        exact ⟨owner, _, _, rfl, hd⟩
      · rintro ⟨_, _, _, heq, _⟩
        cases heq
        rfl
  | _ =>
    refine iff_of_false List.not_mem_nil ?_
    rintro ⟨_, heq, _⟩
    cases heq

theorem Joins.unopened (h : (after settings past).Joins m event s)
    (hn : (stamps ((m, event) :: past)).Nodup) : s ∉ (opened settings past).map Prod.fst := by
  obtain ⟨⟨r, rfl⟩, rfl⟩ := h
  exact upcoming_unopened settings hn rfl

theorem mem_departed_cons : s ∈ departed settings ((m, event) :: past) ↔
    s ∈ departed settings past ∨ (after settings past).Deletes m event s := by
  rw [departed, List.mem_append, mem_closes?]

theorem mem_opened_cons : s ∈ (opened settings ((m, event) :: past)).map Prod.fst ↔
    s ∈ (opened settings past).map Prod.fst ∨ (after settings past).Joins m event s := by
  rw [opened, List.map_append, List.mem_append, mem_opens?]

/-- There are the sessions that were announced and that have not been deleted. -/
theorem mem_sessions_iff (settings : Settings) {past : List (Moment × Event)}
    (hn : (stamps past).Nodup) (s : SessionName) :
    (s ∈ (after settings past).sessions.keys ↔
      s ∈ (opened settings past).map Prod.fst ∧ s ∉ departed settings past) ∧
    (s ∈ departed settings past → s ∈ (opened settings past).map Prod.fst) := by
  -- a new name is not that of a deleted session, because that one was announced
  induction past with
  | nil => exact ⟨iff_of_false nofun nofun, nofun⟩
  | cons p past ih =>
    obtain ⟨m, event⟩ := p
    obtain ⟨hmem, hdeparted⟩ := ih (stamps_tail hn)
    have hdeletes : (after settings past).Deletes m event s →
        s ∈ (opened settings past).map Prod.fst := fun h => (hmem.1 h.mem_sessions).1
    rw [after, mem_sessions_handle (after_grounded settings past), mem_opened_cons,
      mem_departed_cons, hmem]
    constructor
    · constructor
      · rintro (hjoins | ⟨⟨hopened, hstays⟩, hkept⟩)
        · exact ⟨.inr hjoins, fun hgone => hjoins.unopened hn (hgone.elim hdeparted hdeletes)⟩
        · exact ⟨.inl hopened, not_or.2 ⟨hstays, hkept⟩⟩
      · rintro ⟨hopened | hjoins, hgone⟩
        · obtain ⟨hstays, hkept⟩ := not_or.1 hgone
          exact .inr ⟨⟨hopened, hstays⟩, hkept⟩
        · exact .inl hjoins
    · exact fun hgone => .inl (hgone.elim hdeparted hdeletes)

/-! ## Executions -/

/-- There are the executions that were announced, and each is the one that was requested. -/
structure Housed (ps : List (ExecutionName × ExecutionRequest)) (c : Coordinator) : Prop where
  keys : c.executions.keys = ps.map Prod.fst
  terms : ∀ x r, (x, r) ∈ ps → ∃ e, c.executions.find? x = some e ∧ e.name = x ∧
    e.session = r.session ∧ e.parallel = r.parallel

theorem Housed.same (h : Housed ps c) (hx : c'.executions = c.executions) : Housed ps c' :=
  ⟨hx ▸ h.keys, hx ▸ h.terms⟩

theorem tell_housed (hg : Grounded past c) (h : Housed ps c) (now : Nat) (notice : Notice) :
    Housed ps (tell now c notice) := by
  obtain ⟨x, call⟩ := notice
  rcases hg.tell_cases now x call with hsame | ⟨e, he, hname, hsound, htold⟩
  · rwa [hsame]
  · have hterms := (Execution.respond_accounts hsound call).terms
    refine ⟨?_, ?_⟩
    · rw [htold.executions, OrderedMap.keys_insert_of_mem _ (OrderedMap.mem_keys_iff.2 ⟨e, he⟩)]
      exact h.keys
    · intro y r hy
      obtain ⟨f, hf, hfname, hsession, hparallel⟩ := h.terms y r hy
      rw [htold.executions, OrderedMap.find?_insert]
      by_cases hxy : x = y
      · subst hxy
        cases he.symm.trans hf
        rw [if_pos rfl]
        exact ⟨_, rfl, hterms.name.trans hname, hterms.session.trans hsession,
          hterms.parallel.trans hparallel⟩
      · rw [if_neg hxy]
        exact ⟨f, hf, hfname, hsession, hparallel⟩

theorem opening_unstarted (hev : ∀ r, event ≠ .createExecution r) :
    (c.opening m event).coordinator.executions = c.executions := by
  have hopens := opens c m event
  generalize c.opening m event = o at hopens
  cases hopens with
  | still _ hs | finished hs | fetched hs => exact hs.executions
  | heard | resynced | failed | undelivered | timedOut | joined | parted | refused => rfl
  | begun => exact absurd rfl (hev _)

theorem opening_housed (hg : Grounded past c) (h : Housed ps c)
    (hn : (stamps ((m, event) :: past)).Nodup) :
    Housed (ps ++ (event.begins? (c.react m event).reply).toList)
      (c.opening m event).coordinator := by
  cases event with
  | createExecution r =>
    have hnew := hg.toNamed.fresh hn rfl
    have hname : ExecutionName.mk (c.names.next "execution" m.wallClock).1 = c.upcomingName m := rfl
    rw [begins?_createExecution]
    simp only [opening, hname]
    cases hb : c.sessions.beginExecution r (c.upcomingName m) with
    | error f =>
      simp only [Option.toList_none, List.append_nil]
      exact h.same rfl
    | ok begun =>
      obtain ⟨s, sessions⟩ := begun
      refine ⟨?_, ?_⟩
      · rw [OrderedMap.keys_insert_new _ hnew, h.keys]
        simp
      · intro y q hy
        rw [OrderedMap.find?_insert]
        rcases List.mem_append.1 hy with hy | hy
        · obtain ⟨f, hf, hterms⟩ := h.terms y q hy
          have hne : c.upcomingName m ≠ y := by
            rintro rfl
            exact hnew (OrderedMap.mem_keys_iff.2 ⟨f, hf⟩)
          rw [if_neg hne]
          exact ⟨f, hf, hterms⟩
        · cases List.mem_singleton.1 hy
          rw [if_pos rfl]
          exact ⟨_, rfl, rfl, rfl, rfl⟩
  | _ =>
    simp only [Event.begins?, Option.toList_none, List.append_nil]
    refine h.same (opening_unstarted ?_)
    intro r heq
    cases heq

theorem after_housed (settings : Settings) {past : List (Moment × Event)}
    (hn : (stamps past).Nodup) : Housed (accepted settings past) (after settings past) := by
  induction past with
  | nil => exact ⟨rfl, nofun⟩
  | cons p past ih =>
    obtain ⟨m, event⟩ := p
    have hg := after_grounded settings past
    have hopening := opening_housed hg (ih (stamps_tail hn)) hn
    simp only [accepted, handle_reply]
    refine (handle_keeps (P := fun d => Grounded ((m, event) :: past) d ∧ Housed _ d)
      ⟨opening_grounded hg m event, hopening⟩ ?_ ?_).2
    · rintro d notice ⟨hd, h⟩
      exact ⟨tell_grounded m.now notice hd, tell_housed hd h m.now notice⟩
    · rintro d ⟨hd, h⟩
      exact ⟨hd.congr rfl rfl fun _ hs => hs, h.same rfl⟩

/-! ## Assignments -/

theorem flights_sublist {s s' : Schedule} (h : s'.inFlight.entries.Sublist s.inFlight.entries) :
    s'.flights.entries.Sublist s.flights.entries :=
  h.map _

theorem entries_complete {s s' : Schedule} {w : WorkerName} {n : TaskName} {a : Assignment}
    (h : s.complete w n = (s', some a)) : s'.inFlight.entries.Sublist s.inFlight.entries := by
  rw [Schedule.inFlight_complete h]
  exact OrderedMap.drop_sublist _ _

/-- An opening takes tasks off their workers, and leaves the others in order. -/
theorem opening_sublist (c : Coordinator) (m : Moment) (event : Event) :
    (c.opening m event).coordinator.schedule.flights.entries.Sublist
      c.schedule.flights.entries := by
  have hopens := opens c m event
  generalize c.opening m event = o at hopens
  cases hopens with
  | still _ hs | fetched hs =>
    rw [hs.schedule]
  | heard | joined | parted | refused | begun => exact .refl _
  | @resynced _ fleet =>
    obtain ⟨idle, heq⟩ := Schedule.syncWorkers_fst c.schedule fleet.live
    simp only [resync]
    rw [heq]
    exact flights_sublist List.filter_sublist
  | finished _ hc | failed hc => exact flights_sublist (entries_complete hc)
  | undelivered | timedOut => exact flights_sublist (OrderedMap.drop_sublist _ _)

theorem react_sublist (c : Coordinator) (m : Moment) (event : Event) :
    (c.react m event).coordinator.schedule.flights.entries.Sublist
      c.schedule.flights.entries := by
  obtain ⟨_, _, _, hsteady⟩ := tellAll_frame m.now (c.opening m event).coordinator
    (c.opening m event).notices
  rw [react_eq, hsteady.flights]
  exact opening_sublist c m event

/-- What was on its way before a reaction still is, or has ended. -/
theorem reacted_settled {done : List Tag} (hg : Grounded past c) (h : Settled done c)
    (hn : (stamps ((m, event) :: past)).Nodup) :
    ∃ done', Settled done' (c.react m event).coordinator ∧
      ∀ g ∈ c.schedule.running, g ∈ (c.react m event).coordinator.schedule.running ++ done' := by
  obtain ⟨_, _, _, hsteady⟩ := tellAll_frame m.now (c.opening m event).coordinator
    (c.opening m event).notices
  refine ⟨_, (react_keeps (P := fun d => Grounded ((m, event) :: past) d ∧ Settled _ d)
    ⟨opening_grounded hg m event, opening_settled hg h hn⟩ ?_).2, ?_⟩
  · rintro d notice ⟨hd, h⟩
    exact ⟨tell_grounded m.now notice hd, tell_settled hd h m.now notice⟩
  · intro g hmem
    rw [react_eq, hsteady.running]
    rcases List.mem_append.1 ((opening_frees h.keyed m event).running.mem_iff.1 hmem) with hg | hg
    · exact List.mem_append_right _ (List.mem_append_left _ hg)
    · exact List.mem_append_left _ hg

/-- The assignments of a dispatch pass are for other tasks than all that there were, and come
behind them. -/
theorem dispatch_flights {done : List Tag} (h : Settled done c) (now : Nat) :
    ∃ as : List Assignment, (dispatch now c).coordinator.schedule.flights.entries =
      c.schedule.flights.entries ++ as.map (fun a => (a.task.name, a.gist)) ∧
      ∀ a ∈ as, ∀ g ∈ c.schedule.running ++ done, g.2 ≠ a.task.name := by
  obtain ⟨as, hd⟩ := Schedule.dealt_dispatch c.schedule c.fleet now
  have hnames := h.known.names h.nodup
  refine ⟨as, ?_, ?_⟩
  · have hentries := hd.entries h.keyed
      (hnames.sublist ((List.sublist_append_left _ _).map _))
    simp only [dispatch, Schedule.flights, OrderedMap.mapValues, hentries, List.map_append,
      List.map_map, Function.comp_def]
  · intro a ha g hg heq
    have hgist : a.task.gist ∈ c.schedule.pending.map Task.gist :=
      hd.tasks.subset (List.mem_append_left _ (List.mem_map_of_mem ha))
    obtain ⟨t, ht, htask⟩ := List.mem_map.1 hgist
    have htag : t.tag = a.task.tag := by rw [← Task.tag_gist, htask, Task.tag_gist]
    have hwaits : a.task.tag ∈ c.schedule.waiting := htag ▸ List.mem_map_of_mem ht
    rw [scheduled, List.append_assoc, List.map_append] at hnames
    have hapart := (List.nodup_append.1 hnames).2.2
    exact hapart _ (List.mem_map_of_mem hwaits) _ (List.mem_map_of_mem hg) heq.symm

/-- What is in flight is never replaced: an event ends some of it, and adds behind the rest what
was not in flight. -/
structure FlightsKept (c : Coordinator) (m : Moment) (event : Event) : Prop where
  ended : (c.react m event).coordinator.schedule.flights.entries.Sublist c.schedule.flights.entries
  added : ∃ as : List Assignment, (c.handle m event).coordinator.schedule.flights.entries =
      (c.react m event).coordinator.schedule.flights.entries ++
        as.map (fun a => (a.task.name, a.gist)) ∧
    ∀ a ∈ as, a.task.name ∉ c.schedule.inFlight.keys

theorem handle_flights {done : List Tag} (hg : Grounded past c) (h : Settled done c)
    (hn : (stamps ((m, event) :: past)).Nodup) : FlightsKept c m event := by
  refine ⟨react_sublist c m event, ?_⟩
  obtain ⟨done', hsettled, hrunning⟩ := reacted_settled hg h hn
  rw [handle_coordinator]
  split
  · obtain ⟨as, hentries, hnew⟩ := dispatch_flights hsettled m.now
    refine ⟨as, hentries, ?_⟩
    intro a ha hmem
    obtain ⟨b, hb⟩ := OrderedMap.mem_keys_iff.1 hmem
    refine hnew a ha _ (hrunning _ (Schedule.mem_running hb)) ?_
    exact h.keyed _ _ (OrderedMap.mem_entries_iff.2 hb)
  · exact ⟨[], (List.append_nil _).symm, nofun⟩

/-! ## Runs -/

/-- The names that a run gives, and what is kept under them. -/
structure NamesDistinct (settings : Settings) (past : List (Moment × Event)) : Prop where
  sessions : ((opened settings past).map Prod.fst).Nodup
  /-- Those of the requests that were refused are among them. -/
  executions : (executionNames settings past).Nodup
  announced : ((accepted settings past).map Prod.fst).Sublist (executionNames settings past)
  tasks : ((issued settings past).map Task.name).Nodup
  numbers : ∀ x, (issuedBy x (issued settings past)).map Task.name =
    (List.range' 1 (issuedBy x (issued settings past)).length).map (.ofExecution x)
  seeds : ∀ x, seedsOf (issuedBy x (issued settings past)) =
    List.range' 1 (seedsOf (issuedBy x (issued settings past))).length
  scheduled : ∀ t ∈ (after settings past).tasks, t.tag ∈ (issued settings past).map Task.tag
  sessionsKept : ∀ s, s ∈ (after settings past).sessions.keys ↔
    s ∈ (opened settings past).map Prod.fst ∧ s ∉ departed settings past
  /-- A session is what was requested under its name. -/
  sessionsTold : ∀ n s, (after settings past).sessions.find? n = some s →
    ∃ r, (n, r) ∈ opened settings past ∧ s.message =
      ⟨n, r.producer, r.format, r.resources, updatesOf n (accepted settings past)⟩
  executionsKept : Housed (accepted settings past) (after settings past)
  flightsKept : ∀ later m event earlier, past = later ++ (m, event) :: earlier →
    FlightsKept (after settings earlier) m event

/-- No name is given twice, whatever the clock shows, as long as fewer are asked for than there are
words; so nothing is kept in the place of something else. -/
theorem names_distinct (settings : Settings) (past : List (Moment × Event))
    (hlt : (stamps past).length < Word.size) : NamesDistinct settings past := by
  have hn := stamps_nodup hlt
  have hnumbered := after_numbered settings hn
  have hstaged := after_staged settings hn
  exact
    { sessions := (names_nodup settings hn).1
      executions := executionNames_nodup settings hn
      announced := accepted_sublist settings past
      tasks := hnumbered.names_nodup
      numbers := hnumbered.numbers
      seeds := hnumbered.seeds
      scheduled := hnumbered.scheduled
      sessionsKept := fun s => (mem_sessions_iff settings hn s).1
      sessionsTold := by
        intro n s hs
        obtain ⟨r, hr, hmessage⟩ := hstaged.sessions n s hs
        exact ⟨r, List.mem_of_find?_eq_some hr, hmessage⟩
      executionsKept := after_housed settings hn
      flightsKept := by
        rintro later m event earlier rfl
        have hn' := stamps_earlier hn
        exact handle_flights (after_grounded settings earlier)
          (after_settled settings (stamps_tail hn')).1 hn' }

/-- The clock goes back after the first request and stands still before the last; the session is
busy when the second execution is asked for. -/
def turnedBackRun : List (Moment × Event) :=
  [("5", createSession),
    ("5", createExecution 1),
    ("7", createExecution 2),
    ("9", createSession)].map fun p => (⟨p.1, 0⟩, p.2)
where
  createSession : Event := .createSession ⟨none, [], "p", "f"⟩
  createExecution (parallel : Nat) : Event :=
    .createExecution ⟨⟨"session9-1"⟩, none, parallel, none⟩

theorem names_distinct_sample :
    NamesDistinct sampleSettings turnedBackRun ∧
    (opened sampleSettings turnedBackRun).map Prod.fst = [⟨"session9-1"⟩, ⟨"session5-4"⟩] ∧
    executionNames sampleSettings turnedBackRun = [⟨"execution7-2"⟩, ⟨"execution5-3"⟩] ∧
    (accepted sampleSettings turnedBackRun).map Prod.fst = [⟨"execution7-2"⟩] ∧
    (issued sampleSettings turnedBackRun).map Task.name =
      [⟨"execution7-2-task1"⟩, ⟨"execution7-2-task2"⟩] :=
  ⟨names_distinct sampleSettings turnedBackRun (by decide), by decide +kernel, by decide +kernel,
    by decide +kernel, by decide +kernel⟩

end Coordinator
end RenderFarm
