import RenderFarm.Proofs.Coordinator.Staffing
import RenderFarm.Proofs.Fleet.Caches

/-!
# RenderFarm.Proofs.Coordinator.Caches

Who is in the cache lists of the coordinator.

* `fleetMoves`: what an event does to the fleet, as operations; `handle_holds`: what follows changes
  neither who holds what nor who is welcome.
* `Crewed c`: whoever takes part in the schedule is known and not condemned; `after_crewed`, in
  every run.
* `Lingers c w s`: the worker holds the resources, as far as the coordinator knows, and is not
  welcome. `Strays c event w s`: the event is a report in which a worker that is not welcome says so
  of itself.
* `caches_traced`: whoever lingers has strayed since it was last welcome, and whoever strays
  lingers.
-/

namespace RenderFarm

open Fleet (Holds Welcome Condemned Operation)

/-- The report of the worker lists the session among those whose resources it has. -/
def Event.tells (w : WorkerName) (s : SessionName) : Event → Prop
  | .taskFinished v _ _ _ cached | .fetchingFinished v _ _ cached => v = w ∧ s ∈ cached.getD []
  | _ => False

namespace Schedule

variable {P : Fleet → Prop} {f : Fleet}

theorem withAffinity_keeps (htake : ∀ f s, P f → P (f.takeCached s).2) (h : P f) (t : Task) :
    P (withAffinity t f).2 := by
  unfold withAffinity
  split
  · have hnext := htake f t.session h
    split
    · rename_i heq
      rwa [heq] at hnext
    · rename_i heq
      rwa [heq] at hnext
  · exact h

theorem dispatchAll_keeps (htake : ∀ f s, P f → P (f.takeCached s).2) (now : Nat) (ts : List Task)
    (s : Schedule) (h : P f) : P (dispatchAll now ts s f).fleet := by
  induction ts generalizing s f with
  | nil => exact h
  | cons t ts ih =>
    simp only [dispatchAll]
    cases s.idle with
    | nil => exact h
    | cons w ws =>
      have hnext := withAffinity_keeps htake h t
      cases s.tickets.next? with
      | none => exact hnext
      | some ticket => exact ih _ hnext

end Schedule

namespace Coordinator

variable {c c' : Coordinator} {m : Moment} {event : Event} {w : WorkerName} {s : SessionName}

/-! ## What an event does to the fleet -/

def fleetMoves (c : Coordinator) (m : Moment) : Event → List Operation
  | .instancesListed (.ok workers) => [.reconcile workers]
  | .pong report => [.pong report.worker report.cached]
  | .taskFinished w _ _ _ cached => cached.toList.map (.updateCaches w)
  | .fetchingFinished w n _ cached =>
    cached.toList.map (.updateCaches w) ++
      match c.schedule.inFlight.find? n with
      | some a => if a.worker = w then [.markCached w a.task.session] else []
      | none => []
  | .dispatchFailed w n ticket _ => (c.schedule.current? n ticket).toList.map fun _ => .evict w
  | .probeTimeout n ticket =>
    match (c.schedule.expire n ticket m.now).2 with
    | .expired a => [.evict a.worker]
    | .remaining _ | .stale => []
  | .createSession _ => [.track (c.upcomingSession m)]
  | .deleteSession name owner =>
    match c.sessions.delete name owner with
    | .ok _ => [.untrack name]
    | .error _ => []
  | _ => []

theorem fleet_noteCaches (c : Coordinator) (w : WorkerName) (cached : Option (List SessionName)) :
    (c.noteCaches w cached).fleet =
      (cached.toList.map (Operation.updateCaches w)).foldl Fleet.perform c.fleet := by
  cases cached <;> rfl

theorem opening_fleet (c : Coordinator) (m : Moment) (event : Event) :
    (c.opening m event).coordinator.fleet = (c.fleetMoves m event).foldl Fleet.perform c.fleet := by
  cases event with
  | serverReady port =>
    simp only [opening, react, serverReady, fleetMoves]
    split <;> rfl
  | reconcileWorkers | observeCluster | shutdown | createSession => rfl
  | getExecution name =>
    simp only [opening, react, getExecution, fleetMoves]
    split <;> rfl
  | resolveResult name =>
    simp only [opening, react, resolveResult, fleetMoves]
    split <;> rfl
  | instancesListed listing => cases listing <;> rfl
  | pong report =>
    simp only [opening, fleetMoves]
    split <;> rfl
  | taskFinished w n elapsed weight cached =>
    simp only [opening, fleetMoves, ← fleet_noteCaches]
    split <;> rfl
  | fetchingFinished w n elapsed cached =>
    have hs := (still_noteCaches c w cached).schedule
    simp only [opening, fleetMoves, List.foldl_append, ← fleet_noteCaches, hs]
    cases c.schedule.inFlight.find? n with
    | none => rfl
    | some a => by_cases hw : a.worker = w <;> simp [hw, Fleet.perform]
  | taskFailed w n reason =>
    simp only [opening, fleetMoves]
    split <;> rfl
  | dispatchFailed w n ticket reason =>
    simp only [opening, fleetMoves, Schedule.abort]
    cases c.schedule.current? n ticket <;> rfl
  | probeTimeout n ticket =>
    simp only [opening, fleetMoves]
    rcases c.schedule.expire n ticket m.now with ⟨s, a | _ | _⟩ <;> rfl
  | deleteSession name owner =>
    simp only [opening, react, deleteSession, fleetMoves]
    cases c.sessions.delete name owner <;> rfl
  | createExecution r =>
    simp only [opening, fleetMoves]
    split <;> rfl

/-- Only a listing of the workers can start a round. -/
theorem fleetMoves_calm (h : ∀ workers, event ≠ .instancesListed (.ok workers)) :
    ∀ op ∈ c.fleetMoves m event, ∀ ws, op ≠ .reconcile ws := by
  rintro op hop ws rfl
  cases event with
  | instancesListed listing =>
    cases listing with
    | error f => cases hop
    | ok workers => exact h workers rfl
  | pong report => simp [fleetMoves] at hop
  | taskFinished w n elapsed weight cached => simp [fleetMoves] at hop
  | fetchingFinished w n elapsed cached =>
    simp only [fleetMoves] at hop
    split at hop
    · split at hop <;> simp at hop
    · simp at hop
  | dispatchFailed w n ticket reason => simp [fleetMoves] at hop
  | probeTimeout n ticket =>
    simp only [fleetMoves] at hop
    split at hop <;> simp at hop
  | createSession r => simp [fleetMoves] at hop
  | deleteSession name owner =>
    simp only [fleetMoves] at hop
    split at hop <;> simp at hop
  | _ => cases hop

theorem members_handle (c : Coordinator) (m : Moment) (event : Event) :
    (c.handle m event).coordinator.fleet.members =
      (c.opening m event).coordinator.fleet.members := by
  let opened := (c.opening m event).coordinator
  refine handle_keeps (P := fun d => d.fleet.members = opened.fleet.members) rfl
    (fun d notice h => ?_) fun d h => ?_
  · rwa [(tell_frame m.now d notice).1]
  · rwa [members_dispatch]

/-- After the opening it is only said which of the holders is used next. -/
theorem handle_holds :
    Holds (c.handle m event).coordinator.fleet w s ↔
      Holds (c.opening m event).coordinator.fleet w s := by
  let opened := (c.opening m event).coordinator
  refine handle_keeps (P := fun d => Holds d.fleet w s ↔ Holds opened.fleet w s) Iff.rfl
    (fun d notice h => ?_) fun d h => ?_
  · rwa [(tell_frame m.now d notice).1]
  · exact Schedule.dispatchAll_keeps (P := fun f => Holds f w s ↔ Holds opened.fleet w s)
      (fun f s' hf => Fleet.holds_takeCached.trans hf) m.now _ _ h

/-! ## The crew is welcome -/

structure Crewed (c : Coordinator) : Prop where
  orderly : Fleet.Orderly c.fleet.members
  manned : c.schedule.Manned
  welcome : ∀ w, c.schedule.Enlisted w → Welcome c.fleet w

theorem welcome_congr {f f' : Fleet} (h : f'.members = f.members) (w : WorkerName) :
    Welcome f' w ↔ Welcome f w := by
  simp only [Welcome, Condemned, h]

theorem Crewed.steady (h : Crewed c) (hf : c'.fleet.members = c.fleet.members)
    (hs : c.schedule.Steady c'.schedule) : Crewed c' where
  orderly := hf ▸ h.orderly
  manned := h.manned.steady hs
  welcome := fun w hw => (welcome_congr hf w).2 (h.welcome w ((hs.enlisted w).1 hw))

/-- The fleet goes on welcoming whom it has welcomed, and nobody joins the crew. -/
theorem Crewed.fewer {s' : Schedule} (h : Crewed c) (op : Operation) (hm : s'.Manned)
    (hs : ∀ w, s'.Enlisted w → c.schedule.Enlisted w) (hop : ∀ ws, op ≠ .reconcile ws) :
    Crewed { c with schedule := s', fleet := c.fleet.perform op } where
  orderly := Fleet.orderly_perform h.orderly op
  manned := hm
  welcome := fun w hw => (Fleet.welcome_perform hop).2 (h.welcome w (hs w hw))

theorem opening_crewed (h : Crewed c) (m : Moment) (event : Event) :
    Crewed (c.opening m event).coordinator := by
  have horderly := opening_orderly h.orderly m event
  have hopens := opens c m event
  generalize c.opening m event = o at hopens horderly
  cases hopens with
  | still _ hs | fetched hs => exact h.steady hs.members (hs.schedule ▸ .refl _)
  | joined | parted | refused | begun => exact h.steady rfl (.refl _)
  | @heard report =>
    exact h.fewer (.pong report.worker report.cached) h.manned (fun _ hw => hw)
      (fun ws heq => by cases heq)
  | @resynced _ fleet =>
    obtain ⟨hmanned, henlisted⟩ := Schedule.manned_syncWorkers h.manned fleet.live
    refine ⟨horderly, hmanned, fun w hw => ?_⟩
    exact Fleet.isAlive_welcome horderly (Fleet.mem_live.1 ((henlisted w).1 hw))
  | finished hs hc =>
    obtain ⟨hmanned, henlisted⟩ := Schedule.manned_complete h.manned hc
    exact ⟨horderly, hmanned, fun w hw =>
      (welcome_congr hs.members w).2 (h.welcome w ((henlisted w).1 hw))⟩
  | failed hc =>
    obtain ⟨hmanned, henlisted⟩ := Schedule.manned_complete h.manned hc
    exact ⟨horderly, hmanned, fun w hw => h.welcome w ((henlisted w).1 hw)⟩
  | @undelivered w _ _ _ _ hc =>
    obtain ⟨hmanned, henlisted⟩ :=
      Schedule.manned_release h.manned (Schedule.current?_eq_some.1 hc).1
    exact h.fewer (.evict w) hmanned (fun v hv => ((henlisted v).1 hv).2)
      (fun ws heq => by cases heq)
  | @timedOut _ _ a hc =>
    obtain ⟨hmanned, henlisted⟩ :=
      Schedule.manned_release h.manned (Schedule.current?_eq_some.1 hc).1
    exact h.fewer (.evict a.worker) hmanned (fun v hv => ((henlisted v).1 hv).2)
      (fun ws heq => by cases heq)

theorem dispatch_crewed (h : Crewed c) (now : Nat) : Crewed (dispatch now c).coordinator := by
  obtain ⟨as, hd⟩ := Schedule.dealt_dispatch c.schedule c.fleet now
  have hmembers := members_dispatch now c
  refine ⟨hmembers ▸ h.orderly, hd.manned h.manned, fun w hw => ?_⟩
  rw [welcome_congr hmembers]
  refine h.welcome w ?_
  -- whoever is given a task was idle
  rcases hw with hidle | hbusy
  · exact .inl (hd.workers.subset (List.mem_append_right _ hidle))
  · rcases hd.busy_keys.1 hbusy with hgiven | hbusy
    · exact .inl (hd.workers.subset (List.mem_append_left _ hgiven))
    · exact .inr hbusy

theorem after_crewed (settings : Settings) (past : List (Moment × Event)) :
    Crewed (after settings past) := by
  induction past with
  | nil =>
    have hstart := start_staffed settings
    refine ⟨hstart.orderly, hstart.manned, fun w hw => ?_⟩
    exact Fleet.isAlive_welcome hstart.orderly ((hstart.pool w).1 hw)
  | cons p past ih =>
    obtain ⟨m, event⟩ := p
    refine handle_keeps (P := Crewed) (opening_crewed ih m event) (fun d notice h => ?_)
      fun d h => dispatch_crewed h m.now
    obtain ⟨hfleet, _, _, hsteady⟩ := tell_frame m.now d notice
    exact h.steady (by rw [hfleet]) hsteady

/-! ## Strays -/

/-- The worker holds the resources, as far as the coordinator knows, but is not welcome. -/
structure Lingers (c : Coordinator) (w : WorkerName) (s : SessionName) : Prop where
  holds : Holds c.fleet w s
  unwelcome : ¬ Welcome c.fleet w

/-- A worker that is not welcome reports that it has the resources of a session that is there. -/
structure Strays (c : Coordinator) (event : Event) (w : WorkerName) (s : SessionName) : Prop where
  tells : event.tells w s
  unwelcome : ¬ Welcome c.fleet w
  tracked : s ∈ c.fleet.caches.keys

/-- Only a report has the coordinator take a worker's word. A worker that is not welcome has no
task, so the coordinator cannot know better. -/
theorem Crewed.tells (h : Crewed c) (hw : ¬ Welcome c.fleet w) {op : Operation}
    (hop : op ∈ c.fleetMoves m event) (hnotes : op.notes w s) : event.tells w s := by
  have hlist : ∀ {v : WorkerName} {cached : Option (List SessionName)},
      op ∈ cached.toList.map (Operation.updateCaches v) → v = w ∧ s ∈ cached.getD [] := by
    intro v cached hop
    obtain ⟨ss, hss, rfl⟩ := List.mem_map.1 hop
    obtain rfl := Option.mem_toList.1 hss
    exact hnotes
  cases event with
  | instancesListed listing =>
    cases listing with
    | error f => cases hop
    | ok workers =>
      obtain rfl := List.mem_singleton.1 hop
      cases hnotes
  | pong report =>
    obtain rfl := List.mem_singleton.1 hop
    cases hnotes
  | taskFinished v n elapsed weight cached => exact hlist hop
  | fetchingFinished v n elapsed cached =>
    rcases List.mem_append.1 hop with hop | hop
    · exact hlist hop
    · split at hop
      · rename_i a ha
        split at hop
        · rename_i hv
          obtain rfl := List.mem_singleton.1 hop
          obtain ⟨rfl, _⟩ := hnotes
          exact absurd (h.welcome v (.inr (hv ▸ h.manned.held n a ha))) hw
        · cases hop
      · cases hop
  | dispatchFailed v n ticket reason =>
    obtain ⟨_, _, rfl⟩ := List.mem_map.1 hop
    cases hnotes
  | probeTimeout n ticket =>
    simp only [fleetMoves] at hop
    split at hop
    · obtain rfl := List.mem_singleton.1 hop
      cases hnotes
    · cases hop
    · cases hop
  | createSession r =>
    obtain rfl := List.mem_singleton.1 hop
    cases hnotes
  | deleteSession name owner =>
    simp only [fleetMoves] at hop
    split at hop
    · obtain rfl := List.mem_singleton.1 hop
      cases hnotes
    · cases hop
  | _ => cases hop

theorem tells_moves (h : event.tells w s) :
    (∀ workers, event ≠ .instancesListed (.ok workers)) ∧ .track s ∉ c.fleetMoves m event := by
  cases event with
  | taskFinished v n elapsed weight cached =>
    exact ⟨fun workers heq => (by cases heq), by simp [fleetMoves]⟩
  | fetchingFinished v n elapsed cached =>
    refine ⟨fun workers heq => (by cases heq), fun hop => ?_⟩
    rcases List.mem_append.1 hop with hop | hop
    · simp at hop
    · split at hop
      · split at hop <;> simp at hop
      · cases hop
  | _ => cases h

theorem welcome_handle (hcalm : ∀ workers, event ≠ .instancesListed (.ok workers)) :
    Welcome (c.handle m event).coordinator.fleet w ↔ Welcome c.fleet w := by
  rw [welcome_congr (members_handle c m event), opening_fleet]
  exact Fleet.welcome_foldl (fleetMoves_calm hcalm)

/-- An event that is told of no worker that is not welcome leaves nobody lingering who did not. -/
theorem Crewed.lingers (hc : Crewed c) (h : Lingers (c.handle m event).coordinator w s) :
    Lingers c w s ∨ Strays c event w s := by
  obtain ⟨hholds, hunwelcome⟩ := h
  rw [handle_holds] at hholds
  have htracked := OrderedMap.mem_keys_iff.2 (hholds.imp fun _ => And.left)
  rw [welcome_congr (members_handle c m event)] at hunwelcome
  rw [opening_fleet] at hholds htracked hunwelcome
  have hstray : ¬ Welcome c.fleet w → ∀ op ∈ c.fleetMoves m event, op.notes w s →
      Strays c event w s := by
    intro hw op hop hnotes
    have htells := hc.tells hw hop hnotes
    exact ⟨htells, hw, (Fleet.tracked_foldl htracked).resolve_right (tells_moves htells).2⟩
  by_cases hround : ∃ workers, event = .instancesListed (.ok workers)
  · obtain ⟨workers, rfl⟩ := hround
    have hafter : Holds (c.fleet.perform (.reconcile workers)) w s := hholds
    obtain ⟨hw, hheld⟩ := Fleet.unwelcome_holder hafter hunwelcome
    rcases hheld with hheld | hnotes
    · exact .inl ⟨hheld, hw⟩
    · cases hnotes
  · have hmoves := fleetMoves_calm (c := c) (m := m) fun workers heq => hround ⟨workers, heq⟩
    rw [Fleet.welcome_foldl hmoves] at hunwelcome
    rcases Fleet.holders_foldl hmoves hholds hunwelcome with hheld | ⟨op, hop, hnotes⟩
    · exact .inl ⟨hheld, hunwelcome⟩
    · exact .inr (hstray hunwelcome op hop hnotes)

theorem Strays.lingers (h : Strays c event w s) (m : Moment) :
    Lingers (c.handle m event).coordinator w s := by
  have hcalm := (tells_moves (c := c) (m := m) h.tells).1
  refine ⟨?_, fun hw => h.unwelcome ((welcome_handle hcalm).1 hw)⟩
  rw [handle_holds, opening_fleet]
  have hnoted : ∀ cached : Option (List SessionName), s ∈ cached.getD [] →
      Holds ((cached.toList.map (Operation.updateCaches w)).foldl Fleet.perform c.fleet) w s := by
    intro cached hs
    cases cached with
    | none => cases hs
    | some ss => exact Fleet.holds_of_updateCaches h.tracked hs
  have htells := h.tells
  cases event with
  | taskFinished v n elapsed weight cached =>
    obtain ⟨rfl, hs⟩ := htells
    exact hnoted cached hs
  | fetchingFinished v n elapsed cached =>
    obtain ⟨rfl, hs⟩ := htells
    simp only [fleetMoves, List.foldl_append]
    split
    · split
      · exact (hnoted cached hs).markCached
      · exact hnoted cached hs
    · exact hnoted cached hs
  | _ => cases htells

/-- The round that forgets or condemns a worker leaves it in no list. -/
theorem purged_handle
    (hw : c.fleet.members.find? w ≠ none ∧
        (c.handle m event).coordinator.fleet.members.find? w = none ∨
      ¬ Condemned c.fleet w ∧ Condemned (c.handle m event).coordinator.fleet w) :
    ¬ Holds (c.handle m event).coordinator.fleet w s := by
  rw [handle_holds]
  simp only [Condemned, members_handle] at hw
  rw [opening_fleet] at hw ⊢
  by_cases hround : ∃ workers, event = .instancesListed (.ok workers)
  · obtain ⟨workers, rfl⟩ := hround
    intro hholds
    have hafter : Holds (c.fleet.perform (.reconcile workers)) w s := hholds
    exact Fleet.purged_perform hw hafter
  · obtain ⟨hknown, hcondemned⟩ := Fleet.members_foldl (f := c.fleet) (w := w)
      (fleetMoves_calm (c := c) (m := m) fun workers heq => hround ⟨workers, heq⟩)
    rcases hw with ⟨hbefore, hafter⟩ | ⟨hbefore, hafter⟩
    · exact absurd (hknown.1 hafter) hbefore
    · exact absurd (hcondemned.1 hafter) hbefore

/-! ## Runs -/

/-- The cache lists name only workers that are known and not condemned. -/
def Clean (c : Coordinator) : Prop := ∀ w s, ¬ Lingers c w s

/-- What the cache lists come to in a run. -/
structure CachesTraced (settings : Settings) (past : List (Moment × Event)) : Prop where
  /-- Whoever is forgotten or condemned is struck off every list. -/
  purged : ∀ p before w s, past = p :: before →
    ((after settings before).fleet.members.find? w ≠ none ∧
        (after settings past).fleet.members.find? w = none ∨
      ¬ Condemned (after settings before).fleet w ∧ Condemned (after settings past).fleet w) →
    ¬ Holds (after settings past).fleet w s
  /-- From any moment on, a worker that is not welcome gets into a list only by saying so itself,
  with not a moment since at which it was welcome. -/
  origin : ∀ later earlier w s, past = later ++ earlier → Lingers (after settings past) w s →
    Lingers (after settings earlier) w s ∨
    ∃ since m event before, later = since ++ (m, event) :: before ∧
      Strays (after settings (before ++ earlier)) event w s ∧
      ∀ l, l <:+ since → ¬ Welcome (after settings (l ++ (m, event) :: before ++ earlier)).fleet w
  /-- So the lists were right all along if and only if no such report came. -/
  clean : (∀ l, l <:+ past → Clean (after settings l)) ↔
    ∀ m event before w s, (m, event) :: before <:+ past →
      ¬ Strays (after settings before) event w s

theorem lingers_origin (settings : Settings) {later earlier : List (Moment × Event)}
    (h : Lingers (after settings (later ++ earlier)) w s) :
    Lingers (after settings earlier) w s ∨
    ∃ since m event before, later = since ++ (m, event) :: before ∧
      Strays (after settings (before ++ earlier)) event w s ∧
      ∀ l, l <:+ since →
        ¬ Welcome (after settings (l ++ (m, event) :: before ++ earlier)).fleet w := by
  induction later with
  | nil => exact .inl h
  | cons p later ih =>
    obtain ⟨m, event⟩ := p
    rcases (after_crewed settings (later ++ earlier)).lingers h with hold | hstray
    · refine (ih hold).imp_right ?_
      rintro ⟨since, m', event', before, rfl, hstray, hsince⟩
      refine ⟨(m, event) :: since, m', event', before, rfl, hstray, fun l hl => ?_⟩
      rcases List.suffix_cons_iff.1 hl with rfl | hl
      · simpa using h.unwelcome
      · exact hsince l hl
    · refine .inr ⟨[], m, event, later, rfl, hstray, fun l hl => ?_⟩
      obtain rfl := List.suffix_nil.1 hl
      exact h.unwelcome

theorem start_clean (settings : Settings) : Clean (after settings []) := by
  rintro w s ⟨⟨_, hs, _⟩, _⟩
  cases hs

/-- In every run, a worker that has left or is condemned is in a cache list only by its own late
report. -/
theorem caches_traced (settings : Settings) (past : List (Moment × Event)) :
    CachesTraced settings past := by
  constructor
  case purged =>
    rintro ⟨m, event⟩ before w s rfl hw
    exact purged_handle hw
  case origin =>
    rintro later earlier w s rfl h
    exact lingers_origin settings h
  case clean =>
    constructor
    · intro hclean m event before w s hsuffix hstray
      exact hclean _ hsuffix w s (hstray.lingers m)
    · intro hnone l hl w s h
      rw [← List.append_nil l] at h
      rcases lingers_origin settings h with hstart | ⟨since, m, event, before, rfl, hstray, _⟩
      · exact start_clean settings w s hstart
      · rw [List.append_nil] at hstray
        exact hnone m event before w s ((List.suffix_append since _).trans hl) hstray

/-- A worker that answers no ping is condemned with a task in its hands. The task is done by the
other worker, and when all is over the first one reports it finished. -/
def lateRun : List (Moment × Event) :=
  [.taskFinished ⟨"w1"⟩ ⟨"execution7-2-task1"⟩ 10 none (some [⟨"session7-1"⟩]), finished 4,
    finished 3, finished 2, listed, pong "w2", listed,
    .createExecution ⟨⟨"session7-1"⟩, none, 1, none⟩, .createSession ⟨none, [], "p", "f"⟩,
    pong "w2", pong "w1", listed].map fun e => (⟨"7", 0⟩, e)
where
  listed : Event :=
    .instancesListed (.ok [⟨⟨"w1"⟩, "10.0.0.1", 5000, 9000⟩, ⟨⟨"w2"⟩, "10.0.0.1", 5000, 9000⟩])
  pong (w : String) : Event := .pong ⟨⟨w⟩, [], []⟩
  finished (n : Nat) : Event :=
    .taskFinished ⟨"w2"⟩ (.ofExecution ⟨"execution7-2"⟩ n) 10 none none

/-- The condemned worker is in the list of the session again. -/
theorem condemned_listed :
    let settings := { sampleSettings with waitingPongTimeout := 1 }
    ¬ Clean (after settings lateRun) ∧
    Condemned (after settings lateRun).fleet ⟨"w1"⟩ ∧
    (after settings lateRun).fleet.caches.find? ⟨"session7-1"⟩ = some [⟨"w1"⟩] := by
  intro settings
  have hcondemned : Condemned (after settings lateRun).fleet ⟨"w1"⟩ := by decide +kernel
  have hfind : (after settings lateRun).fleet.caches.find? ⟨"session7-1"⟩ = some [⟨"w1"⟩] := by
    decide +kernel
  have hlingers : Lingers (after settings lateRun) ⟨"w1"⟩ ⟨"session7-1"⟩ :=
    ⟨⟨_, hfind, List.mem_singleton_self _⟩, fun h => h.2 hcondemned⟩
  exact ⟨fun hclean => hclean _ _ hlingers, hcondemned, hfind⟩

end Coordinator
end RenderFarm
