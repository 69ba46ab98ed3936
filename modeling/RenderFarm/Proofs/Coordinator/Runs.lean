import RenderFarm.Proofs.Coordinator.Agreement
import RenderFarm.Proofs.Coordinator.Opening
import RenderFarm.Proofs.Session

/-!
# RenderFarm.Proofs.Coordinator.Runs

What is true in every run, however many names and tickets are given out.

* `handle_keeps`: to keep something through an event is to keep it through its opening, through
  every notice and through a dispatch pass.
* `after?`: the runs that the program gets through; `after?_eq_some` says that what is true of all
  runs is true of them.
* `Arisen`: an execution that its calls have brought about from its creation on.
* `Grounded past c`: every execution has arisen from a request, and every session and execution has
  a name that was stamped; `after_grounded` says that this is so after every run.
-/

namespace RenderFarm
namespace Coordinator

open Execution (Call Sound)

/-! ## One event -/

theorem handle_coordinator (c : Coordinator) (m : Moment) (event : Event) :
    (c.handle m event).coordinator =
      if (c.react m event).wakes then (dispatch m.now (c.react m event).coordinator).coordinator
      else (c.react m event).coordinator := by
  simp only [handle]
  split <;> rfl

theorem handle_reply (c : Coordinator) (m : Moment) (event : Event) :
    (c.handle m event).reply = (c.react m event).reply := by
  simp only [handle]
  split <;> rfl

theorem handle_asleep {c : Coordinator} {m : Moment} {event : Event}
    (h : (c.react m event).wakes = false) : c.handle m event = c.react m event := by
  simp [handle, h]

theorem react_keeps {P : Coordinator → Prop} {c : Coordinator} {m : Moment} {event : Event}
    (hopen : P (c.opening m event).coordinator)
    (htell : ∀ c notice, P c → P (tell m.now c notice)) : P (c.react m event).coordinator := by
  rw [react_eq]
  exact tellAll_keeps htell hopen _

theorem handle_of_react {P : Coordinator → Prop} {c : Coordinator} {m : Moment} {event : Event}
    (hreact : P (c.react m event).coordinator)
    (hdispatch : ∀ c, P c → P (dispatch m.now c).coordinator) :
    P (c.handle m event).coordinator := by
  rw [handle_coordinator]
  split
  · exact hdispatch _ hreact
  · exact hreact

theorem handle_keeps {P : Coordinator → Prop} {c : Coordinator} {m : Moment} {event : Event}
    (hopen : P (c.opening m event).coordinator) (htell : ∀ c notice, P c → P (tell m.now c notice))
    (hdispatch : ∀ c, P c → P (dispatch m.now c).coordinator) :
    P (c.handle m event).coordinator :=
  handle_of_react (react_keeps hopen htell) hdispatch

/-! ## What the program gets through -/

/-- The coordinator after the events; there is none if the program stops at one of them. -/
def after? (settings : Settings) : List (Moment × Event) → Option Coordinator
  | [] => some (start settings).coordinator
  | (m, event) :: past =>
    (after? settings past).bind fun c => (c.handle? m event).map Outcome.coordinator

theorem handle?_eq_some {c : Coordinator} {m : Moment} {event : Event} {o : Outcome} :
    c.handle? m event = some o ↔ c.handle m event = o ∧ o.coordinator.overflowed = false := by
  simp only [handle?]
  split
  · rename_i hover
    refine iff_of_false (by simp) ?_
    rintro ⟨rfl, hnone⟩
    cases hover.symm.trans hnone
  · rename_i hover
    rw [Option.some.injEq]
    refine ⟨?_, And.left⟩
    rintro rfl
    exact ⟨rfl, Bool.eq_false_iff.2 hover⟩

/-- What is true of all runs is true of those that the program gets through, and in these no sum
has exceeded a word. -/
theorem after?_eq_some {settings : Settings} {past : List (Moment × Event)} {c : Coordinator}
    (h : after? settings past = some c) : after settings past = c ∧ c.overflowed = false := by
  induction past generalizing c with
  | nil =>
    cases h
    exact ⟨rfl, rfl⟩
  | cons p past ih =>
    obtain ⟨m, event⟩ := p
    obtain ⟨before, hbefore, hlast⟩ := Option.bind_eq_some_iff.1 h
    obtain ⟨o, ho, rfl⟩ := Option.map_eq_some_iff.1 hlast
    obtain ⟨rfl, _⟩ := ih hbefore
    obtain ⟨rfl, hnone⟩ := handle?_eq_some.1 ho
    exact ⟨rfl, hnone⟩

/-! ## Executions -/

def Arisen (x : ExecutionName) (e : Execution) : Prop :=
  ∃ policy session parallel fetches now calls,
    e = (Execution.create policy x session parallel fetches now).after calls

section Arisen

variable {x : ExecutionName} {e : Execution}

theorem Arisen.sound (h : Arisen x e) : e.name = x ∧ Sound e := by
  obtain ⟨policy, session, parallel, fetches, now, calls, rfl⟩ := h
  have hs := Execution.create_sound policy x session parallel fetches now
  exact ⟨(Execution.after_terms hs calls).name, Execution.after_sound hs calls⟩

theorem Arisen.respond (h : Arisen x e) (call : Call) : Arisen x (e.respond call).1 := by
  obtain ⟨policy, session, parallel, fetches, now, calls, rfl⟩ := h
  exact ⟨policy, session, parallel, fetches, now, call :: calls, rfl⟩

end Arisen

/-! ## Names -/

def stampedSession (stamp : String × Nat) : SessionName :=
  ⟨"session" ++ stamp.1 ++ "-" ++ toString stamp.2⟩

theorem stampedSession_inj {s t : String × Nat} (h : stampedSession s = stampedSession t) :
    s = t :=
  stamp_inj (congrArg SessionName.text h)

/-- The name that a session created at the moment gets. -/
def upcomingSession (c : Coordinator) (m : Moment) : SessionName :=
  ⟨(c.names.next "session" m.wallClock).1⟩

structure Grounded (past : List (Moment × Event)) (c : Coordinator) : Prop extends
    Named past c where
  arisen : ∀ x e, c.executions.find? x = some e → Arisen x e
  sessions : ∀ s ∈ c.sessions.keys, ∃ stamp ∈ stamps past, s = stampedSession stamp

variable {past : List (Moment × Event)} {c c' : Coordinator} {m : Moment} {event : Event}

theorem Grounded.sound (h : Grounded past c) {x : ExecutionName} {e : Execution}
    (he : c.executions.find? x = some e) : e.name = x ∧ Sound e :=
  (h.arisen x e he).sound

theorem Grounded.congr (h : Grounded past c) (hn : c'.names = c.names)
    (hx : c'.executions = c.executions) (hs : ∀ s ∈ c'.sessions.keys, s ∈ c.sessions.keys) :
    Grounded past c' where
  issued := hn ▸ h.issued
  executions := hx ▸ h.executions
  arisen := hx ▸ h.arisen
  sessions := fun s hmem => h.sessions s (hs s hmem)

theorem Grounded.upcoming_session (h : Grounded past c) (m : Moment) :
    c.upcomingSession m =
      stampedSession (m.wallClock, ((stamps past).length + 1) % Word.size) := by
  have hn : (c.names.issued + 1) % Word.size = ((stamps past).length + 1) % Word.size := by
    rw [h.issued, Nat.mod_add_mod]
  simp only [upcomingSession, NameSource.next, hn, stampedSession]

theorem mem_stamps_cons {stamp : String × Nat} (p : Moment × Event) (h : stamp ∈ stamps past) :
    stamp ∈ stamps (p :: past) := by
  simp only [stamps]
  split
  · exact List.mem_cons_of_mem _ h
  · exact h

/-- A new session does not get the name of an earlier stamp if its own stamp is new. -/
theorem Grounded.upcoming_ne (h : Grounded past c) (hn : (stamps ((m, event) :: past)).Nodup)
    (hev : event.asksName = true) {stamp : String × Nat} (hs : stamp ∈ stamps past) :
    c.upcomingSession m ≠ stampedSession stamp := by
  intro heq
  rw [h.upcoming_session] at heq
  simp only [stamps, hev, if_true, List.nodup_cons] at hn
  exact hn.1 (stampedSession_inj heq ▸ hs)

/-- The name that a new session gets is new if its stamp is. -/
theorem Grounded.fresh_session (h : Grounded past c)
    (hn : (stamps ((m, event) :: past)).Nodup) (hev : event.asksName = true) :
    c.upcomingSession m ∉ c.sessions.keys := by
  intro hs
  obtain ⟨stamp, hstamp, heq⟩ := h.sessions _ hs
  exact h.upcoming_ne hn hev hstamp heq

/-- A notice to an execution that there is not changes nothing. -/
theorem Grounded.tell_cases (h : Grounded past c) (now : Nat) (x : ExecutionName) (call : Call) :
    tell now c (x, call) = c ∨ ∃ e, c.executions.find? x = some e ∧ e.name = x ∧ Sound e ∧
      Told x e (e.respond call).1 (Execution.tasksOf (e.respond call).2) c
        (tell now c (x, call)) := by
  cases he : c.executions.find? x with
  | none => exact .inl (by simp only [tell, he])
  | some e =>
    obtain ⟨hname, hs⟩ := h.sound he
    exact .inr ⟨e, rfl, hname, hs, told hname hs he now call⟩

theorem tell_grounded (now : Nat) (notice : Notice) (h : Grounded past c) :
    Grounded past (tell now c notice) := by
  obtain ⟨x, call⟩ := notice
  rcases h.tell_cases now x call with hsame | ⟨e, he, _, _, ht⟩
  · rwa [hsame]
  · refine ⟨⟨ht.names ▸ h.issued, ?_⟩, ?_, ?_⟩
    · rw [ht.executions, OrderedMap.keys_insert_of_mem _ (OrderedMap.mem_keys_iff.2 ⟨e, he⟩)]
      exact h.executions
    · intro y f hf
      rw [ht.executions, OrderedMap.find?_insert] at hf
      split at hf
      · rename_i hy
        cases hf
        subst hy
        exact (h.arisen x e he).respond call
      · exact h.arisen y f hf
    · intro s hmem
      rw [ht.sessions] at hmem
      split at hmem
      · exact h.sessions s (Sessions.keys_endExecution _ _ _ ▸ hmem)
      · exact h.sessions s hmem

/-- An event that gives no name leaves everything grounded in what came before it. -/
theorem Grounded.unasked (h : Grounded past c) (hev : event.asksName = false) :
    Grounded ((m, event) :: past) c := by
  refine ⟨⟨?_, ?_⟩, ?_, ?_⟩
  · simpa [stamps, hev] using h.issued
  · simpa [stamps, hev] using h.executions
  · exact h.arisen
  · simpa [stamps, hev] using h.sessions

/-- A name is given, to a session or to an execution or to nobody. -/
theorem Grounded.asked (h : Grounded past c) (hev : event.asksName = true)
    (hn : c'.names.issued = (c.names.issued + 1) % Word.size)
    (hx : ∀ x e, c'.executions.find? x = some e → c.executions.find? x = some e ∨
      x = c.upcomingName m ∧ Arisen x e)
    (hs : ∀ s ∈ c'.sessions.keys, s ∈ c.sessions.keys ∨ s = c.upcomingSession m) :
    Grounded ((m, event) :: past) c' := by
  have hstamps : stamps ((m, event) :: past) =
      (m.wallClock, ((stamps past).length + 1) % Word.size) :: stamps past := by
    simp [stamps, hev]
  refine ⟨⟨?_, ?_⟩, ?_, ?_⟩
  · rw [hn, h.issued, hstamps, Nat.mod_add_mod, List.length_cons]
  · intro x hmem
    obtain ⟨e, he⟩ := OrderedMap.mem_keys_iff.1 hmem
    rw [hstamps]
    rcases hx x e he with he | ⟨hup, _⟩
    · obtain ⟨s, hs, heq⟩ := h.executions x (OrderedMap.mem_keys_iff.2 ⟨e, he⟩)
      exact ⟨s, List.mem_cons_of_mem _ hs, heq⟩
    · exact ⟨_, List.mem_cons_self, hup.trans (h.upcoming m)⟩
  · intro x e he
    rcases hx x e he with he | ⟨_, hnew⟩
    · exact h.arisen x e he
    · exact hnew
  · intro s hmem
    rw [hstamps]
    rcases hs s hmem with hold | hup
    · obtain ⟨stamp, hstamp, heq⟩ := h.sessions s hold
      exact ⟨stamp, List.mem_cons_of_mem _ hstamp, heq⟩
    · exact ⟨_, List.mem_cons_self, hup.trans (h.upcoming_session m)⟩

theorem opening_grounded (h : Grounded past c) (m : Moment) (event : Event) :
    Grounded ((m, event) :: past) (c.opening m event).coordinator := by
  have hopens := opens c m event
  generalize c.opening m event = o at hopens
  cases hopens with
  | still hev hs =>
    exact .unasked (h.congr hs.names hs.executions (by simp [hs.sessions])) hev
  | resynced hev => exact .unasked (h.congr rfl rfl fun _ hs => hs) hev
  | finished hs | fetched hs =>
    exact .unasked (h.congr hs.names hs.executions (by simp [hs.sessions])) rfl
  | heard | failed | undelivered | timedOut => exact .unasked (h.congr rfl rfl fun _ hs => hs) rfl
  | parted hd =>
    obtain ⟨_, _, _, rfl⟩ := Sessions.delete_eq_ok.1 hd
    exact .unasked (h.congr rfl rfl fun s hs => (OrderedMap.mem_keys_erase.1 hs).2) rfl
  | joined =>
    refine h.asked rfl rfl (fun x e he => .inl he) fun s hs => ?_
    exact (OrderedMap.mem_keys_insert.1 hs).symm
  | refused => exact h.asked rfl rfl (fun x e he => .inl he) fun s hs => .inl hs
  | @begun r s sessions e hb he =>
    obtain ⟨s₀, hs₀, _, _, _, _, rfl⟩ := Sessions.beginExecution_eq_ok.1 hb
    refine h.asked rfl rfl (fun x f hf => ?_) fun s hs => ?_
    · simp only [OrderedMap.find?_insert] at hf
      split at hf
      · rename_i hx
        cases hf
        exact .inr ⟨hx.symm, _, _, _, _, _, [], hx ▸ he⟩
      · exact .inl hf
    · rcases OrderedMap.mem_keys_insert.1 hs with rfl | hs
      · exact .inl (OrderedMap.mem_keys_iff.2 ⟨s₀, hs₀⟩)
      · exact .inl hs

/-- An execution stays what it is through an opening; only a new one may come. -/
theorem opening_executions (hg : Grounded past c) (hn : (stamps ((m, event) :: past)).Nodup)
    {x : ExecutionName} {e : Execution} (he : c.executions.find? x = some e) :
    (c.opening m event).coordinator.executions.find? x = some e := by
  have hopens := opens c m event
  generalize c.opening m event = o at hopens
  cases hopens with
  | still _ hs | finished hs | fetched hs => exact hs.executions ▸ he
  | heard | resynced | failed | undelivered | timedOut | joined | parted | refused => exact he
  | begun =>
    have hne : c.upcomingName m ≠ x := by
      rintro rfl
      exact hg.toNamed.fresh hn rfl (OrderedMap.mem_keys_iff.2 ⟨e, he⟩)
    rw [OrderedMap.find?_insert, if_neg hne]
    exact he

/-- Nothing in a run lacks an origin. -/
theorem after_grounded (settings : Settings) (past : List (Moment × Event)) :
    Grounded past (after settings past) := by
  induction past with
  | nil =>
    refine ⟨⟨rfl, ?_⟩, ?_, ?_⟩
    · intro x hx
      cases hx
    · intro x e he
      cases he
    · intro s hs
      cases hs
  | cons p past ih =>
    obtain ⟨m, event⟩ := p
    exact handle_keeps (P := Grounded ((m, event) :: past)) (opening_grounded ih m event)
      (fun c notice h => tell_grounded m.now notice h) fun c h => h.congr rfl rfl fun _ hs => hs

end Coordinator
end RenderFarm
