import RenderFarm.Proofs.Coordinator.Caches
import RenderFarm.Proofs.Fleet.Holders

/-!
# RenderFarm.Proofs.Coordinator.Deletions

The sessions that are tracked are the sessions that there are, and a session that is deleted is
forgotten for good.

* `deletions cmds`: who is told to forget which session.
* `Joins`, `Deletes`: the two kinds of events that change which sessions there are.
* `deletions_of_deletes`, `deletions_eq_nil`: what is told at a deletion, and that nothing is told
  at any other event.
* `sessions_in_step`: both, for every run.
-/

namespace RenderFarm

/-- The worker that is told to forget a session. -/
def Command.deletion? : Command → Option (Worker × SessionName)
  | .deleteCache w message => some (w, message.session)
  | _ => none

namespace Coordinator

open Fleet (Holds Distinct Operation)

def deletions (cmds : List Command) : List (Worker × SessionName) :=
  cmds.filterMap Command.deletion?

variable {past : List (Moment × Event)} {c : Coordinator} {m : Moment} {event : Event}
  {s : SessionName}

/-! ## Events that change the sessions -/

def Joins (c : Coordinator) (m : Moment) (event : Event) (s : SessionName) : Prop :=
  (∃ r, event = .createSession r) ∧ s = c.upcomingSession m

/-- The event is a request to delete the session, and it is granted. -/
def Deletes (c : Coordinator) (m : Moment) (event : Event) (s : SessionName) : Prop :=
  ∃ owner, event = .deleteSession s owner ∧ (c.handle m event).reply = some .sessionDeleted

theorem deletes_iff : c.Deletes m event s ↔
    ∃ owner t sessions, event = .deleteSession s owner ∧
      c.sessions.delete s owner = .ok (t, sessions) := by
  constructor
  · rintro ⟨owner, rfl, hreply⟩
    rw [handle_reply] at hreply
    simp only [react, deleteSession] at hreply
    split at hreply
    · cases hreply
    · rename_i t sessions hd
      exact ⟨owner, t, sessions, rfl, hd⟩
  · rintro ⟨owner, t, sessions, rfl, hd⟩
    refine ⟨owner, rfl, ?_⟩
    rw [handle_reply]
    simp only [react, deleteSession, hd]

theorem Deletes.mem_sessions (h : c.Deletes m event s) : s ∈ c.sessions.keys := by
  obtain ⟨owner, t, sessions, rfl, hd⟩ := deletes_iff.1 h
  exact OrderedMap.mem_keys_iff.2 ⟨t, (Sessions.delete_eq_ok.1 hd).1⟩

theorem joins_iff {r : SessionRequest} :
    c.Joins m (.createSession r) s ↔ s = c.upcomingSession m :=
  and_iff_right ⟨r, rfl⟩

/-- One session comes, or one goes, or none does either. -/
theorem changes (c : Coordinator) (m : Moment) (event : Event) :
    (∃ r, event = .createSession r ∧ ∀ s, ¬ c.Deletes m event s) ∨
    (∃ t owner u sessions, event = .deleteSession t owner ∧
      c.sessions.delete t owner = .ok (u, sessions) ∧
      ∀ s, ¬ c.Joins m event s ∧ (c.Deletes m event s ↔ s = t)) ∨
    ∀ s, ¬ c.Joins m event s ∧ ¬ c.Deletes m event s := by
  by_cases hjoin : ∃ r, event = .createSession r
  · obtain ⟨r, rfl⟩ := hjoin
    exact .inl ⟨r, rfl, nofun⟩
  refine .inr ?_
  by_cases hpart : ∃ t, c.Deletes m event t
  · obtain ⟨t, hdeletes⟩ := hpart
    obtain ⟨owner, u, sessions, rfl, hd⟩ := deletes_iff.1 hdeletes
    refine .inl ⟨t, owner, u, sessions, rfl, hd, fun s => ⟨fun h => hjoin h.1, ?_, ?_⟩⟩
    · rintro ⟨_, heq, _⟩
      cases heq
      rfl
    · rintro rfl
      exact hdeletes
  · exact .inr fun s => ⟨fun h => hjoin h.1, fun h => hpart ⟨s, h⟩⟩

/-- Sessions are tracked and untracked only as they come and go. -/
theorem fleetMoves_tracks {op : Operation} (h : op ∈ c.fleetMoves m event) :
    (op = .track s → c.Joins m event s) ∧ (op = .untrack s → c.Deletes m event s) := by
  cases event with
  | instancesListed listing =>
    cases listing with
    | error f => cases h
    | ok workers =>
      obtain rfl := List.mem_singleton.1 h
      simp
  | pong report =>
    obtain rfl := List.mem_singleton.1 h
    simp
  | taskFinished w n elapsed weight cached =>
    obtain ⟨_, _, rfl⟩ := List.mem_map.1 h
    simp
  | fetchingFinished w n elapsed cached =>
    rcases List.mem_append.1 h with h | h
    · obtain ⟨_, _, rfl⟩ := List.mem_map.1 h
      simp
    · split at h
      · split at h
        · obtain rfl := List.mem_singleton.1 h
          simp
        · cases h
      · cases h
  | dispatchFailed w n ticket reason =>
    obtain ⟨_, _, rfl⟩ := List.mem_map.1 h
    simp
  | probeTimeout n ticket =>
    simp only [fleetMoves] at h
    split at h
    · obtain rfl := List.mem_singleton.1 h
      simp
    · cases h
    · cases h
  | createSession r =>
    obtain rfl := List.mem_singleton.1 h
    refine ⟨fun heq => ?_, fun heq => ?_⟩
    · cases heq
      exact ⟨⟨r, rfl⟩, rfl⟩
    · cases heq
  | deleteSession name owner =>
    simp only [fleetMoves] at h
    split at h
    · rename_i t sessions hd
      obtain rfl := List.mem_singleton.1 h
      refine ⟨fun heq => ?_, fun heq => ?_⟩
      · cases heq
      · cases heq
        exact deletes_iff.2 ⟨owner, _, _, rfl, hd⟩
    · cases h
  | _ => cases h

/-! ## Which sessions are tracked -/

theorem handle_tracked (c : Coordinator) (m : Moment) (event : Event) :
    (c.handle m event).coordinator.fleet.caches.keys =
      (c.opening m event).coordinator.fleet.caches.keys := by
  let opened := (c.opening m event).coordinator
  refine handle_keeps (P := fun d => d.fleet.caches.keys = opened.fleet.caches.keys) rfl
    (fun d notice h => ?_) fun d h => ?_
  · rwa [(tell_frame m.now d notice).1]
  · exact Schedule.dispatchAll_keeps (P := fun f => f.caches.keys = opened.fleet.caches.keys)
      (fun f s hf => (Fleet.keys_takeCached f s).trans hf) m.now _ _ h

theorem mem_tracked_handle : s ∈ (c.handle m event).coordinator.fleet.caches.keys ↔
    c.Joins m event s ∨ s ∈ c.fleet.caches.keys ∧ ¬ c.Deletes m event s := by
  rw [handle_tracked, opening_fleet]
  rcases changes c m event with ⟨r, rfl, hstays⟩ | ⟨t, owner, u, sessions, rfl, hd, h⟩ | hcalm
  · rw [joins_iff, and_iff_left (hstays s)]
    exact Fleet.tracked_track
  · rw [or_iff_right (h s).1, (h s).2, and_comm]
    simp only [fleetMoves, hd]
    exact OrderedMap.mem_keys_erase
  · rw [or_iff_right (hcalm s).1, and_iff_left (hcalm s).2,
      Fleet.keys_foldl (fun t ht => (hcalm t).1 ((fleetMoves_tracks ht).1 rfl))
        fun t ht => (hcalm t).2 ((fleetMoves_tracks ht).2 rfl)]

/-! ## Which sessions there are -/

theorem handle_sessions (hg : Grounded past c) (m : Moment) (event : Event) :
    (c.handle m event).coordinator.sessions.keys =
      (c.opening m event).coordinator.sessions.keys := by
  let opened := (c.opening m event).coordinator
  refine (handle_keeps (P := fun d => Grounded ((m, event) :: past) d ∧
    d.sessions.keys = opened.sessions.keys) ⟨opening_grounded hg m event, rfl⟩ ?_ ?_).2
  · rintro d ⟨x, call⟩ ⟨hd, hkeys⟩
    refine ⟨tell_grounded m.now _ hd, ?_⟩
    rcases hd.tell_cases m.now x call with hsame | ⟨e, _, _, _, htold⟩
    · rwa [hsame]
    · rw [htold.sessions]
      split
      · exact (Sessions.keys_endExecution _ _ _).trans hkeys
      · exact hkeys
  · rintro d ⟨hd, hkeys⟩
    exact ⟨hd.congr rfl rfl fun _ hs => hs, hkeys⟩

theorem opening_sessions (h : ∀ s, ¬ c.Joins m event s ∧ ¬ c.Deletes m event s) :
    (c.opening m event).coordinator.sessions.keys = c.sessions.keys := by
  have hopens := opens c m event
  generalize c.opening m event = o at hopens
  cases hopens with
  | still _ hs | finished hs | fetched hs => exact congrArg OrderedMap.keys hs.sessions
  | heard | resynced | failed | undelivered | timedOut | refused => rfl
  | @joined r => exact absurd (joins_iff.2 rfl) (h (c.upcomingSession m)).1
  | @parted name owner t sessions hd =>
    exact absurd (deletes_iff.2 ⟨owner, t, sessions, rfl, hd⟩) (h name).2
  | begun hb =>
    obtain ⟨t, ht, _, _, _, _, rfl⟩ := Sessions.beginExecution_eq_ok.1 hb
    exact OrderedMap.keys_insert_of_mem _ (OrderedMap.mem_keys_iff.2 ⟨t, ht⟩)

theorem mem_sessions_handle (hg : Grounded past c) :
    s ∈ (c.handle m event).coordinator.sessions.keys ↔
      c.Joins m event s ∨ s ∈ c.sessions.keys ∧ ¬ c.Deletes m event s := by
  rw [handle_sessions hg]
  rcases changes c m event with ⟨r, rfl, hstays⟩ | ⟨t, owner, u, sessions, rfl, hd, h⟩ | hcalm
  · rw [joins_iff, and_iff_left (hstays s)]
    exact OrderedMap.mem_keys_insert
  · obtain ⟨_, _, _, rfl⟩ := Sessions.delete_eq_ok.1 hd
    rw [or_iff_right (h s).1, (h s).2, and_comm]
    simp only [opening, react, deleteSession, hd]
    exact OrderedMap.mem_keys_erase
  · rw [or_iff_right (hcalm s).1, and_iff_left (hcalm s).2, opening_sessions hcalm]

/-! ## Who is told to forget a session -/

theorem deletions_append (cmds cmds' : List Command) :
    deletions (cmds ++ cmds') = deletions cmds ++ deletions cmds' :=
  List.filterMap_append

theorem deletion_deliver {a : Assignment} {cmd : Command} (hc : cmd ∈ c.deliver a) :
    cmd.deletion? = none := by
  unfold deliver at hc
  split at hc
  · simp only [List.mem_cons, List.not_mem_nil, or_false] at hc
    rcases hc with rfl | rfl <;> rfl
  · cases List.mem_singleton.1 hc
    rfl

theorem deletion_roundCommands {round : Fleet.Round} {cmd : Command}
    (hc : cmd ∈ c.roundCommands round) : cmd.deletion? = none := by
  rcases List.mem_append.1 hc with hc | hc
  · obtain ⟨w, _, rfl⟩ := List.mem_map.1 hc
    rfl
  · split at hc
    · obtain ⟨w, _, rfl⟩ := List.mem_map.1 hc
      rfl
    · cases hc

/-- Neither what executions do nor a dispatch pass has anything forgotten. -/
theorem deletions_handle (c : Coordinator) (m : Moment) (event : Event) :
    deletions (c.handle m event).commands = deletions (c.ownCommands m event) := by
  have htold (notices : List Notice) (d : Coordinator) :
      deletions (turns (telling m.now) notices d).commands = [] := by
    refine List.filterMap_eq_nil_iff.2 fun cmd hc => ?_
    obtain ⟨p, rfl⟩ := told_probes m.now notices d cmd hc
    rfl
  have hpass (d : Coordinator) : deletions (dispatch m.now d).commands = [] := by
    refine List.filterMap_eq_nil_iff.2 fun cmd hc => ?_
    obtain ⟨a, _, hc⟩ := List.mem_flatMap.1 hc
    exact deletion_deliver hc
  have hreact : deletions (c.react m event).commands = deletions (c.ownCommands m event) := by
    rw [(react_turn c m event).2, deletions_append, htold, List.append_nil]
  simp only [handle]
  split
  · rw [deletions_append, hreact, hpass, List.append_nil]
  · exact hreact

theorem deletions_eq_nil (h : ∀ s, ¬ c.Deletes m event s) :
    deletions (c.handle m event).commands = [] := by
  rw [deletions_handle]
  refine List.filterMap_eq_nil_iff.2 fun cmd hc => ?_
  cases event with
  | reconcileWorkers =>
    simp only [ownCommands, reconcileWorkers, List.mem_cons, List.not_mem_nil, or_false] at hc
    rcases hc with rfl | rfl <;> rfl
  | instancesListed listing =>
    cases listing with
    | error f => cases hc
    | ok workers => exact deletion_roundCommands hc
  | probeTimeout n ticket =>
    simp only [ownCommands] at hc
    split at hc
    · cases List.mem_singleton.1 hc
      rfl
    · cases hc
    · cases hc
  | deleteSession name owner =>
    simp only [ownCommands, deleteSession] at hc
    split at hc
    · cases hc
    · rename_i hd
      exact absurd (deletes_iff.2 ⟨owner, _, _, rfl, hd⟩) (h name)
  | _ => cases hc

/-- The holders of the session that are in the cluster are told. -/
theorem deletions_of_deletes (h : c.Deletes m event s) :
    deletions (c.handle m event).commands =
      (((c.fleet.caches.find? s).getD []).filterMap c.fleet.worker?).map fun w => (w, s) := by
  obtain ⟨owner, t, sessions, rfl, hd⟩ := deletes_iff.1 h
  rw [deletions_handle]
  simp only [ownCommands, deleteSession, hd, deletions, List.filterMap_map]
  exact congrFun List.filterMap_eq_map _

/-! ## Runs -/

theorem after_distinct (settings : Settings) (past : List (Moment × Event)) :
    Distinct (after settings past).fleet := by
  induction past with
  | nil => exact nofun
  | cons p past ih =>
    obtain ⟨m, event⟩ := p
    refine handle_keeps (P := fun d => Distinct d.fleet) ?_ (fun d notice h => ?_) fun d h => ?_
    · rw [opening_fleet]
      exact Fleet.distinct_foldl ih _
    · rwa [(tell_frame m.now d notice).1]
    · exact Schedule.dispatchAll_keeps (fun f s hf => hf.takeCached s) m.now _ _ h

theorem tracked_iff (settings : Settings) (past : List (Moment × Event)) (s : SessionName) :
    s ∈ (after settings past).fleet.caches.keys ↔ s ∈ (after settings past).sessions.keys := by
  induction past with
  | nil => exact Iff.rfl
  | cons p past ih =>
    obtain ⟨m, event⟩ := p
    simp only [after, mem_tracked_handle, mem_sessions_handle (after_grounded settings past), ih]

theorem mem_stamps_append {stamp : String × Nat} (later : List (Moment × Event))
    (h : stamp ∈ stamps past) : stamp ∈ stamps (later ++ past) := by
  induction later with
  | nil => exact h
  | cons p later ih => exact mem_stamps_cons p ih

/-- A session that was deleted does not come back, unless its name is given again. -/
theorem untracked_for_good (settings : Settings) {later : List (Moment × Event)}
    (h : (after settings past).Deletes m event s)
    (hn : (stamps (later ++ (m, event) :: past)).Nodup) :
    s ∉ (after settings (later ++ (m, event) :: past)).fleet.caches.keys := by
  obtain ⟨stamp, hstamp, rfl⟩ := (after_grounded settings past).sessions s h.mem_sessions
  induction later with
  | nil =>
    rw [List.nil_append, after, mem_tracked_handle, not_or]
    refine ⟨?_, fun hs => hs.2 h⟩
    rintro ⟨⟨r, rfl⟩, _⟩
    obtain ⟨_, heq, _⟩ := h
    cases heq
  | cons p later ih =>
    obtain ⟨m', event'⟩ := p
    rw [List.cons_append] at hn
    rw [List.cons_append, after, mem_tracked_handle, not_or]
    refine ⟨?_, fun hs => ih (stamps_tail hn) hs.1⟩
    rintro ⟨⟨r, rfl⟩, heq⟩
    have hstamp' := mem_stamps_append later (mem_stamps_cons (m, event) hstamp)
    exact (after_grounded settings _).upcoming_ne hn rfl hstamp' heq.symm

/-- The sessions and the tracked caches of a run. -/
structure SessionsInStep (settings : Settings) (past : List (Moment × Event)) : Prop where
  tracked : ∀ s, s ∈ (after settings past).fleet.caches.keys ↔
    s ∈ (after settings past).sessions.keys
  /-- When a session is deleted, each of its holders that is in the cluster is told so once, and
  nobody else is told anything. -/
  told : ∀ m event s, (after settings past).Deletes m event s →
    let told := deletions (given settings ((m, event) :: past))
    (∀ w n, (w, n) ∈ told ↔ n = s ∧ ∃ v, Holds (after settings past).fleet v s ∧
      (after settings past).fleet.worker? v = some w) ∧
    (told.map fun d => d.1.name).Nodup
  /-- At any other event nobody is told to forget anything, and only a new session is tracked that
  was not tracked before. -/
  quiet : ∀ m event, (∀ s, ¬ (after settings past).Deletes m event s) →
    deletions (given settings ((m, event) :: past)) = [] ∧
    ((∀ r, event ≠ .createSession r) → ∀ s,
      s ∈ (after settings ((m, event) :: past)).fleet.caches.keys ↔
        s ∈ (after settings past).fleet.caches.keys)
  /-- After its deletion a session is not tracked and nobody is told to forget it, whatever comes
  later, as long as no name is given twice. -/
  gone : ∀ m event s later, (after settings past).Deletes m event s →
    (stamps (later ++ (m, event) :: past)).Nodup →
    s ∉ (after settings (later ++ (m, event) :: past)).fleet.caches.keys ∧
    (later ≠ [] → ∀ w, (w, s) ∉ deletions (given settings (later ++ (m, event) :: past)))

theorem given_deletions (settings : Settings) {w : Worker}
    (h : (w, s) ∈ deletions (given settings ((m, event) :: past))) :
    (after settings past).Deletes m event s := by
  by_cases hpart : ∃ t, (after settings past).Deletes m event t
  · obtain ⟨t, hdeletes⟩ := hpart
    rw [given, deletions_of_deletes hdeletes] at h
    obtain ⟨_, _, heq⟩ := List.mem_map.1 h
    cases heq
    exact hdeletes
  · rw [given, deletions_eq_nil fun t ht => hpart ⟨t, ht⟩] at h
    cases h

/-- In every run, exactly the sessions that there are are tracked, and a session that is deleted is
forgotten by everybody who holds its resources, once and for good. -/
theorem sessions_in_step (settings : Settings) (past : List (Moment × Event)) :
    SessionsInStep settings past where
  tracked := tracked_iff settings past
  told m event s h := by
    have hknown := Fleet.known_holders (after_crewed settings past).orderly
      (after_distinct settings past) s
    simp only [given, deletions_of_deletes h, List.map_map, Function.comp_def]
    refine ⟨fun w n => ?_, hknown.2⟩
    rw [← hknown.1 w]
    simp [and_comm, eq_comm]
  quiet m event h := by
    refine ⟨deletions_eq_nil h, fun hev s => ?_⟩
    have hjoin : ¬ (after settings past).Joins m event s := fun hs => hs.1.elim hev
    rw [after, mem_tracked_handle, or_iff_right hjoin, and_iff_left (h s)]
  gone m event s later h hn := by
    refine ⟨untracked_for_good settings h hn, fun hlater w hw => ?_⟩
    cases later with
    | nil => exact hlater rfl
    | cons p later =>
      have hs := (given_deletions settings hw).mem_sessions
      rw [List.cons_append] at hn
      rw [← tracked_iff] at hs
      exact untracked_for_good settings h (stamps_tail hn) hs

/-- Two workers hold the resources of a session; one has left, and said so of itself only later. -/
def heldRun : List (Moment × Event) :=
  [.taskFinished ⟨"w2"⟩ ⟨"execution7-2-task1"⟩ 10 none (some [⟨"session7-1"⟩]), listed ["w1"],
    pong "w1", .createSession ⟨none, [], "p", "f"⟩, listed ["w1", "w2"]].map fun e => (⟨"7", 0⟩, e)
where
  listed (names : List String) : Event :=
    .instancesListed (.ok (names.map fun w => ⟨⟨w⟩, "10.0.0.1", 5000, 9000⟩))
  pong (w : String) : Event := .pong ⟨⟨w⟩, [], [⟨"session7-1"⟩]⟩

theorem sessions_in_step_sample :
    let deletion : Moment × Event := (⟨"7", 0⟩, .deleteSession ⟨"session7-1"⟩ none)
    let report : Moment × Event := (⟨"7", 0⟩, heldRun.pong "w1")
    (after sampleSettings heldRun).fleet.caches.find? ⟨"session7-1"⟩ = some [⟨"w1"⟩, ⟨"w2"⟩] ∧
    (deletions (given sampleSettings (deletion :: heldRun))).map (fun d => (d.1.name, d.2)) =
      [(⟨"w1"⟩, ⟨"session7-1"⟩)] ∧
    ⟨"session7-1"⟩ ∉ (after sampleSettings (report :: deletion :: heldRun)).fleet.caches.keys := by
  intro deletion report
  have hdeletes : (after sampleSettings heldRun).Deletes ⟨"7", 0⟩
      (.deleteSession ⟨"session7-1"⟩ none) ⟨"session7-1"⟩ := ⟨none, rfl, by rfl⟩
  exact ⟨by decide +kernel, by decide +kernel,
    ((sessions_in_step sampleSettings heldRun).gone _ _ _ [report] hdeletes
      (stamps_nodup (by decide))).1⟩

end Coordinator
end RenderFarm
