import RenderFarm.Proofs.Coordinator.Runs

/-!
# RenderFarm.Proofs.Coordinator.Occupancy

A session runs one execution at a time, and what it is marked with is the execution that it runs.

* `Runs c x n`: the execution `x` is one of the session `n`, and not over.
* `Occupied c`: every session is marked with what it runs, and what runs has a session.
* `Blocked c n owner`: why a request on a session cannot be served.
* `one_execution_at_a_time`: both, for every run in which no name is given twice.
-/

namespace RenderFarm

/-- A request that deletes a session or runs an execution in it. -/
def Event.OnSession : Event → Prop
  | .deleteSession .. | .createExecution _ => True
  | _ => False

namespace Coordinator

open Execution (Call Sound)

def Runs (c : Coordinator) (x : ExecutionName) (n : SessionName) : Prop :=
  ∃ e, c.executions.find? x = some e ∧ e.session = n ∧ e.isTerminal = false

structure Occupied (c : Coordinator) : Prop where
  flag : ∀ n s, c.sessions.find? n = some s → ∀ x, s.running = some x ↔ c.Runs x n
  housed : ∀ x n, c.Runs x n → ∃ s, c.sessions.find? n = some s

variable {past : List (Moment × Event)} {c c' : Coordinator} {m : Moment} {event : Event}

theorem Occupied.congr (h : Occupied c) (hs : c'.sessions = c.sessions)
    (hr : ∀ x n, c'.Runs x n ↔ c.Runs x n) : Occupied c' where
  flag := by
    intro n s hn x
    rw [hr]
    exact h.flag n s (hs ▸ hn) x
  housed := by
    intro x n hx
    rw [hs]
    exact h.housed x n ((hr x n).1 hx)

theorem runs_congr (hx : c'.executions = c.executions) (x : ExecutionName) (n : SessionName) :
    c'.Runs x n ↔ c.Runs x n := by
  simp only [Runs, hx]

theorem Occupied.same (h : Occupied c) (hs : c'.sessions = c.sessions)
    (hx : c'.executions = c.executions) : Occupied c' :=
  h.congr hs (runs_congr hx)

/-! ## Notices -/

/-- The session of an execution that has just ended is free again. -/
theorem Occupied.ended {x : ExecutionName} {n : SessionName} (h : Occupied c) (hx : c.Runs x n)
    (hs : c'.sessions = c.sessions.endExecution n x)
    (hr : ∀ y k, c'.Runs y k ↔ y ≠ x ∧ c.Runs y k) : Occupied c' := by
  have hfind : ∀ k s, c'.sessions.find? k = some s → ∃ s₀, c.sessions.find? k = some s₀ ∧
      s = if k = n ∧ s₀.running = some x then { s₀ with running := none } else s₀ := by
    intro k s hk
    rw [hs, Sessions.find?_endExecution] at hk
    obtain ⟨s₀, hs₀, rfl⟩ := Option.map_eq_some_iff.1 hk
    exact ⟨s₀, hs₀, rfl⟩
  refine ⟨fun k s hk y => ?_, fun y k hy => ?_⟩
  · obtain ⟨s₀, hs₀, heq⟩ := hfind k s hk
    have hflag := h.flag k s₀ hs₀
    rw [hr]
    by_cases hcase : k = n ∧ s₀.running = some x
    · rw [if_pos hcase] at heq
      subst heq
      simp only [reduceCtorEq, false_iff, not_and]
      intro hne hy
      have := (hflag y).2 hy
      rw [hcase.2] at this
      exact hne (Option.some.inj this).symm
    · rw [if_neg hcase] at heq
      subst heq
      rw [hflag]
      refine ⟨fun hy => ⟨?_, hy⟩, And.right⟩
      rintro rfl
      -- only the session of the execution is marked with it
      obtain ⟨e, he, hsession, _⟩ := hx
      obtain ⟨f, hf, hsession', _⟩ := id hy
      cases he.symm.trans hf
      exact hcase ⟨hsession'.symm.trans hsession, (hflag y).2 hy⟩
  · obtain ⟨s, hs₀⟩ := h.housed y k ((hr y k).1 hy).2
    rw [hs, Sessions.find?_endExecution, hs₀]
    exact ⟨_, rfl⟩

theorem runs_insert {x : ExecutionName} {e e' : Execution}
    (hx : c'.executions = c.executions.insert x e') (hsession : e'.session = e.session)
    (y : ExecutionName) (n : SessionName) :
    c'.Runs y n ↔
      (y ≠ x ∧ c.Runs y n) ∨ (y = x ∧ e.session = n ∧ e'.isTerminal = false) := by
  simp only [Runs, hx, OrderedMap.find?_insert]
  by_cases hy : x = y
  · subst hy
    simp [hsession]
  · simp [hy, Ne.symm hy]

theorem tell_occupied (hg : Grounded past c) (h : Occupied c) (now : Nat) (notice : Notice) :
    Occupied (tell now c notice) := by
  obtain ⟨x, call⟩ := notice
  rcases hg.tell_cases now x call with hsame | ⟨e, he, _, hs, ht⟩
  · rwa [hsame]
  · have hruns := runs_insert ht.executions (Execution.respond_accounts hs call).terms.session
    have hself : ∀ n, c.Runs x n ↔ e.session = n ∧ e.isTerminal = false := by
      intro n
      simp [Runs, he]
    by_cases hend : e.isTerminal = false ∧ (e.respond call).1.isTerminal = true
    · refine h.ended ((hself _).2 ⟨rfl, hend.1⟩) (ht.sessions.trans (if_pos hend)) fun y n => ?_
      rw [hruns]
      simp [hend.2]
    · refine h.congr (ht.sessions.trans (if_neg hend)) fun y n => ?_
      have hkept : (e.respond call).1.isTerminal = e.isTerminal := by
        cases hover : e.isTerminal with
        | true => rw [Execution.respond_terminal hover call, hover]
        | false => simpa [hover] using hend
      rw [hruns, hkept]
      by_cases hy : y = x
      · subst hy
        simp [hself]
      · simp [hy]

/-! ## Openings -/

theorem Occupied.joined {n : SessionName} {s : Session} (h : Occupied c)
    (hnew : n ∉ c.sessions.keys) (hidle : s.running = none)
    (hs : c'.sessions = c.sessions.insert n s) (hx : c'.executions = c.executions) :
    Occupied c' := by
  -- what runs has a session, so nothing runs in one that is new
  have hnone : ∀ x, ¬ c.Runs x n := by
    intro x hr
    obtain ⟨t, ht⟩ := h.housed x n hr
    exact hnew (OrderedMap.mem_keys_iff.2 ⟨t, ht⟩)
  refine ⟨fun k t hk x => ?_, fun x k hr => ?_⟩
  · rw [runs_congr hx]
    rw [hs, OrderedMap.find?_insert] at hk
    split at hk
    · rename_i heq
      cases hk
      subst heq
      simp [hidle, hnone]
    · exact h.flag k t hk x
  · rw [runs_congr hx] at hr
    obtain ⟨t, ht⟩ := h.housed x k hr
    rw [hs, OrderedMap.find?_insert]
    split
    · exact ⟨s, rfl⟩
    · exact ⟨t, ht⟩

theorem Occupied.parted {n : SessionName} {s : Session} (h : Occupied c)
    (hfind : c.sessions.find? n = some s) (hidle : s.running = none)
    (hs : c'.sessions = c.sessions.erase n) (hx : c'.executions = c.executions) :
    Occupied c' := by
  refine ⟨fun k t hk x => ?_, fun x k hr => ?_⟩
  · rw [runs_congr hx]
    rw [hs] at hk
    exact h.flag k t (OrderedMap.find?_of_erase hk) x
  · rw [runs_congr hx] at hr
    obtain ⟨t, ht⟩ := h.housed x k hr
    rw [hs, OrderedMap.find?_erase]
    split
    · rename_i heq
      subst heq
      have hmarked := (h.flag n s hfind x).2 hr
      rw [hidle] at hmarked
      cases hmarked
    · exact ⟨t, ht⟩

/-- A session that ran nothing runs a new execution. -/
theorem Occupied.begun {n : SessionName} {x : ExecutionName} {s : Session} {t : Session}
    {e : Execution} (h : Occupied c) (hnew : x ∉ c.executions.keys)
    (hfind : c.sessions.find? n = some s) (hidle : s.running = none)
    (hmarked : t.running = some x) (hsession : e.session = n) (hrun : e.isTerminal = false)
    (hs : c'.sessions = c.sessions.insert n t) (hx : c'.executions = c.executions.insert x e) :
    Occupied c' := by
  have hruns : ∀ y k, c'.Runs y k ↔ c.Runs y k ∨ (y = x ∧ n = k) := by
    intro y k
    have hnone : c.executions.find? x = none := OrderedMap.find?_eq_none_iff.2 hnew
    simp only [Runs, hx, OrderedMap.find?_insert]
    by_cases hy : x = y
    · subst hy
      simp [hnone, hsession, hrun]
    · simp [hy, Ne.symm hy]
  refine ⟨fun k u hk y => ?_, fun y k hr => ?_⟩
  · rw [hruns]
    rw [hs, OrderedMap.find?_insert] at hk
    split at hk
    · rename_i heq
      cases hk
      subst heq
      have hfree : ¬ c.Runs y n := by
        rw [← h.flag n s hfind y, hidle]
        simp
      simp only [hmarked, hfree, Option.some.injEq, and_true, false_or]
      exact eq_comm
    · rename_i hne
      rw [h.flag k u hk y]
      simp [hne]
  · rw [hs, OrderedMap.find?_insert]
    split
    · exact ⟨t, rfl⟩
    · rename_i hne
      rcases (hruns y k).1 hr with hr | ⟨_, hk⟩
      · exact h.housed y k hr
      · exact absurd hk hne

theorem opening_occupied (hg : Grounded past c) (h : Occupied c)
    (hn : (stamps ((m, event) :: past)).Nodup) :
    Occupied (c.opening m event).coordinator := by
  have hopens := opens c m event
  generalize c.opening m event = o at hopens
  cases hopens with
  | still _ hs | finished hs | fetched hs => exact h.same hs.sessions hs.executions
  | heard | resynced | failed | undelivered | timedOut | refused => exact h.same rfl rfl
  | joined => exact h.joined (hg.fresh_session hn rfl) rfl rfl rfl
  | parted hd =>
    obtain ⟨hfind, _, hidle, rfl⟩ := Sessions.delete_eq_ok.1 hd
    exact h.parted hfind hidle rfl rfl
  | @begun r s sessions e hb he =>
    obtain ⟨s₀, hfind, _, hidle, _, rfl, rfl⟩ := Sessions.beginExecution_eq_ok.1 hb
    refine h.begun (hg.toNamed.fresh hn rfl) hfind hidle rfl ?_ ?_ rfl rfl
    · rw [he]
      rfl
    · rw [he]
      simp only [Execution.isTerminal, Execution.create]
      split <;> rfl

theorem reacted_occupied (hg : Grounded past c) (h : Occupied c)
    (hn : (stamps ((m, event) :: past)).Nodup) : Occupied (c.react m event).coordinator := by
  refine (react_keeps (P := fun c => Grounded ((m, event) :: past) c ∧ Occupied c)
    ⟨opening_grounded hg m event, opening_occupied hg h hn⟩ ?_).2
  rintro c notice ⟨hg, h⟩
  exact ⟨tell_grounded m.now notice hg, tell_occupied hg h m.now notice⟩

theorem after_occupied (settings : Settings) {past : List (Moment × Event)}
    (hn : (stamps past).Nodup) : Occupied (after settings past) := by
  induction past with
  | nil =>
    refine ⟨?_, ?_⟩
    · intro n s hs
      cases hs
    · rintro x n ⟨e, he, _⟩
      cases he
  | cons p past ih =>
    obtain ⟨m, event⟩ := p
    have hreact : Occupied ((after settings past).react m event).coordinator :=
      reacted_occupied (after_grounded settings past) (ih (stamps_tail hn)) hn
    exact handle_of_react hreact fun _ h => h.same rfl rfl

/-! ## Requests -/

/-- The session is unknown, or it is not the owner who asks, or it runs an execution. -/
def Blocked (c : Coordinator) (n : SessionName) (owner : Option String) : Prop :=
  c.sessions.find? n = none ∨
  (∃ s o, c.sessions.find? n = some s ∧ s.owner = some o ∧ owner ≠ some o) ∨
  ∃ x, c.Runs x n

theorem not_admits {s : Session} {owner : Option String} :
    s.admits owner = false ↔ ∃ o, s.owner = some o ∧ owner ≠ some o := by
  unfold Session.admits
  cases s.owner with
  | none => simp
  | some o => simp

theorem Occupied.blocked_iff (h : Occupied c) (n : SessionName) (owner : Option String) :
    c.Blocked n owner ↔
      ¬ ∃ s, c.sessions.find? n = some s ∧ s.admits owner = true ∧ s.running = none := by
  cases hs : c.sessions.find? n with
  | none => simp [Blocked, hs]
  | some s =>
    have hidle : (∃ x, c.Runs x n) ↔ s.running ≠ none := by
      simp only [← h.flag n s hs, Option.ne_none_iff_exists']
    have hadmits : (∃ o, s.owner = some o ∧ owner ≠ some o) ↔ ¬ s.admits owner = true := by
      rw [← not_admits, Bool.not_eq_true]
    simp only [Blocked, hs, Option.some.injEq, reduceCtorEq, false_or, exists_eq_left', hidle,
      exists_and_left, hadmits]
    rw [Ne, ← not_and_or]

def Outcome.Refused (o : Outcome) : Prop := ∃ f, o.reply = some (.refused f)

theorem deleteSession_refused (c : Coordinator) (m : Moment) (n : SessionName)
    (owner : Option String) : (c.handle m (.deleteSession n owner)).Refused ↔
      ¬ ∃ s, c.sessions.find? n = some s ∧ s.admits owner = true ∧ s.running = none := by
  have hok : (∃ s ss, c.sessions.delete n owner = .ok (s, ss)) ↔
      ∃ s, c.sessions.find? n = some s ∧ s.admits owner = true ∧ s.running = none := by
    simp [Sessions.delete_eq_ok]
  rw [← hok, Outcome.Refused, handle_reply]
  simp only [react, deleteSession]
  cases c.sessions.delete n owner with
  | error f => simp [answer]
  | ok gone =>
    obtain ⟨s, ss⟩ := gone
    simp

theorem createExecution_refused (c : Coordinator) (m : Moment) (r : ExecutionRequest) :
    (c.handle m (.createExecution r)).Refused ↔
      (¬ ∃ s, c.sessions.find? r.session = some s ∧ s.admits r.owner = true ∧ s.running = none) ∨
      r.parallel = 0 := by
  have hok : (∃ s ss, c.sessions.beginExecution r (c.upcomingName m) = .ok (s, ss)) ↔
      (∃ s, c.sessions.find? r.session = some s ∧ s.admits r.owner = true ∧ s.running = none) ∧
      r.parallel ≠ 0 := by
    simp only [Sessions.beginExecution_eq_ok]
    constructor
    · rintro ⟨_, _, s, hs, ha, hr, hp, _⟩
      exact ⟨⟨s, hs, ha, hr⟩, hp⟩
    · rintro ⟨⟨s, hs, ha, hr⟩, hp⟩
      exact ⟨_, _, s, hs, ha, hr, hp, rfl, rfl⟩
  rw [← Decidable.not_not (p := r.parallel = 0), ← not_and_or, ← hok]
  have hname : ExecutionName.mk (c.names.next "execution" m.wallClock).1 = c.upcomingName m := rfl
  rw [Outcome.Refused, handle_reply]
  simp only [react, createExecution, hname]
  cases c.sessions.beginExecution r (c.upcomingName m) with
  | error f => simp [answer]
  | ok begun =>
    obtain ⟨s, ss⟩ := begun
    simp

/-- Nothing but the supply of names is touched, and nothing is asked of anybody. -/
structure Untouched (c : Coordinator) (o : Outcome) : Prop where
  fleet : o.coordinator.fleet = c.fleet
  schedule : o.coordinator.schedule = c.schedule
  sessions : o.coordinator.sessions = c.sessions
  executions : o.coordinator.executions = c.executions
  commands : o.commands = []

theorem refused_untouched (c : Coordinator) (m : Moment) {event : Event} (hev : event.OnSession)
    (h : (c.handle m event).Refused) : Untouched c (c.handle m event) := by
  rw [Outcome.Refused, handle_reply] at h
  cases event with
  | deleteSession n owner =>
    simp only [react, deleteSession] at h
    cases hd : c.sessions.delete n owner with
    | ok gone => simp [hd] at h
    | error f =>
      have hreact : c.react m (.deleteSession n owner) = c.answer (.refused (.request f)) := by
        simp [react, deleteSession, hd]
      rw [handle_asleep (by rw [hreact]; rfl), hreact]
      exact ⟨rfl, rfl, rfl, rfl, rfl⟩
  | createExecution r =>
    have hname : ExecutionName.mk (c.names.next "execution" m.wallClock).1 = c.upcomingName m := rfl
    simp only [react, createExecution, hname] at h
    cases hb : c.sessions.beginExecution r (c.upcomingName m) with
    | ok begun => simp [hb, Turn.awake] at h
    | error f =>
      have hreact : c.react m (.createExecution r) =
          { c with names := (c.names.next "execution" m.wallClock).2 }.answer
            (.refused (.request f)) := by
        simp [react, createExecution, hname, hb]
      rw [handle_asleep (by rw [hreact]; rfl), hreact]
      exact ⟨rfl, rfl, rfl, rfl, rfl⟩
  | _ => cases hev

/-! ## The state after a run -/

structure OneAtATime (c : Coordinator) : Prop where
  flag : ∀ n s, c.sessions.find? n = some s → ∀ x e, c.executions.find? x = some e →
    (s.running = some x ↔ e.session = n ∧ e.isTerminal = false)
  known : ∀ n s x, c.sessions.find? n = some s → s.running = some x →
    ∃ e, c.executions.find? x = some e
  single : ∀ x y e f, c.executions.find? x = some e → c.executions.find? y = some f →
    e.isTerminal = false → f.isTerminal = false → e.session = f.session → x = y
  housed : ∀ x e, c.executions.find? x = some e → e.isTerminal = false →
    ∃ s, c.sessions.find? e.session = some s

/-- What becomes of the requests on sessions, whatever they ask for. -/
structure Gated (c : Coordinator) : Prop where
  delete : ∀ m n owner, (c.handle m (.deleteSession n owner)).Refused ↔ c.Blocked n owner
  create : ∀ m r, (c.handle m (.createExecution r)).Refused ↔
    c.Blocked r.session r.owner ∨ r.parallel = 0
  refused : ∀ m event, event.OnSession → (c.handle m event).Refused →
    Untouched c (c.handle m event)

theorem Occupied.oneAtATime (h : Occupied c) : OneAtATime c := by
  refine ⟨fun n s hs x e he => ?_, fun n s x hs hx => ?_, fun x y e f he hf ht ht' heq => ?_,
    fun x e he ht => h.housed x e.session ⟨e, he, rfl, ht⟩⟩
  · rw [h.flag n s hs x]
    simp [Runs, he]
  · obtain ⟨e, he, _⟩ := (h.flag n s hs x).1 hx
    exact ⟨e, he⟩
  · obtain ⟨s, hs⟩ := h.housed x e.session ⟨e, he, rfl, ht⟩
    have hx := (h.flag _ s hs x).2 ⟨e, he, rfl, ht⟩
    have hy := (h.flag _ s hs y).2 ⟨f, hf, heq.symm, ht'⟩
    exact Option.some.inj (hx.symm.trans hy)

theorem Occupied.gated (h : Occupied c) : Gated c where
  delete := fun m n owner => by
    rw [h.blocked_iff]
    exact deleteSession_refused c m n owner
  create := fun m r => by
    rw [h.blocked_iff]
    exact createExecution_refused c m r
  refused := fun m _ => refused_untouched c m

/-- A session runs at most the execution that it is marked with, which exists and is not over, and
it is exactly the sessions that run nothing on which a request can be served. -/
theorem one_execution_at_a_time (settings : Settings) (past : List (Moment × Event))
    (hn : (stamps past).Nodup) :
    OneAtATime (after settings past) ∧ Gated (after settings past) :=
  ⟨(after_occupied settings hn).oneAtATime, (after_occupied settings hn).gated⟩

theorem one_execution_at_a_time_sample :
    (OneAtATime (after sampleSettings sampleRun) ∧ Gated (after sampleSettings sampleRun)) ∧
    ((after sampleSettings sampleRun).sessions.find? ⟨"session7-1"⟩).bind Session.running
      = some ⟨"execution7-2"⟩ :=
  ⟨one_execution_at_a_time sampleSettings sampleRun (stamps_nodup (by decide)),
    by decide +kernel⟩

end Coordinator
end RenderFarm
