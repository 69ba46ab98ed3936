import RenderFarm.Proofs.Coordinator.Preparation

/-!
# RenderFarm.Proofs.Coordinator.Scenes

All tasks of one execution are rendered against the same state of the session.

* `opened settings past`, `accepted settings past`: the requests of a run that were served, with the
  names that were given for them, the earliest first.
* `scene? opened accepted x`: the session as it was for the execution `x`, told by those requests
  alone.
* `Staged`: the sessions are what those requests have made of them.
* `scenes_fixed`: what is sent with the tasks of an execution, in every run in which no name is
  given twice.
-/

namespace RenderFarm

/-- The session that the reply announces. -/
def Event.opens? : Event → Option Reply → Option (SessionName × SessionRequest)
  | .createSession r, some (.sessionCreated name) => some (name, r)
  | _, _ => none

/-- The execution that the reply announces. -/
def Event.begins? : Event → Option Reply → Option (ExecutionName × ExecutionRequest)
  | .createExecution r, some (.execution snapshot) => some (snapshot.name, r)
  | _, _ => none

namespace Coordinator

open Execution (Call Sound)

/-! ## Requests that were served -/

def opened (settings : Settings) : List (Moment × Event) → List (SessionName × SessionRequest)
  | [] => []
  | (m, event) :: past =>
    opened settings past ++ (event.opens? ((after settings past).handle m event).reply).toList

def accepted (settings : Settings) : List (Moment × Event) → List (ExecutionName × ExecutionRequest)
  | [] => []
  | (m, event) :: past =>
    accepted settings past ++ (event.begins? ((after settings past).handle m event).reply).toList

/-- The requests up to the one that the execution was begun for. -/
def upTo (x : ExecutionName) :
    List (ExecutionName × ExecutionRequest) → List (ExecutionName × ExecutionRequest)
  | [] => []
  | p :: ps => if p.1 = x then [p] else p :: upTo x ps

/-- The updates of the session among the requests. -/
def updatesOf (n : SessionName) (ps : List (ExecutionName × ExecutionRequest)) : List Json :=
  (ps.filter fun p => p.2.session = n).flatMap fun p => p.2.update.toList

/-- The session with which the execution was begun: as it was requested, with the updates of all
requests for executions in it up to this one. -/
def scene? (opened : List (SessionName × SessionRequest))
    (accepted : List (ExecutionName × ExecutionRequest)) (x : ExecutionName) :
    Option Wire.SessionMessage :=
  (accepted.find? fun p => p.1 = x).bind fun p =>
    (opened.find? fun q => q.1 = p.2.session).map fun q =>
      ⟨q.1, q.2.producer, q.2.format, q.2.resources, updatesOf q.1 (upTo x accepted)⟩

section Requests

variable {n : SessionName} {x : ExecutionName} {r : ExecutionRequest}
  {ps ps' : List (ExecutionName × ExecutionRequest)} {qs qs' : List (SessionName × SessionRequest)}

theorem upTo_append (h : ∃ p ∈ ps, p.1 = x) : upTo x (ps ++ ps') = upTo x ps := by
  induction ps with
  | nil =>
    obtain ⟨p, hp, _⟩ := h
    cases hp
  | cons p ps ih =>
    by_cases hp : p.1 = x
    · simp [upTo, hp]
    · have hrest : ∃ p ∈ ps, p.1 = x := by
        obtain ⟨p', hmem, hp'⟩ := h
        rcases List.mem_cons.1 hmem with rfl | hmem
        · exact absurd hp' hp
        · exact ⟨p', hmem, hp'⟩
      simp [upTo, hp, ih hrest]

theorem upTo_concat (h : ∀ p ∈ ps, p.1 ≠ x) (r : ExecutionRequest) :
    upTo x (ps ++ [(x, r)]) = ps ++ [(x, r)] := by
  induction ps with
  | nil => simp [upTo]
  | cons p ps ih =>
    have hp : p.1 ≠ x := h p List.mem_cons_self
    have hrest := ih fun p' hp' => h p' (List.mem_cons_of_mem _ hp')
    simp [upTo, hp, hrest]

theorem updatesOf_concat (n : SessionName) (ps : List (ExecutionName × ExecutionRequest))
    (x : ExecutionName) (r : ExecutionRequest) : updatesOf n (ps ++ [(x, r)]) =
      updatesOf n ps ++ if r.session = n then r.update.toList else [] := by
  by_cases hr : r.session = n
  · simp [updatesOf, hr]
  · simp [updatesOf, hr]

theorem updatesOf_nil (h : ∀ p ∈ ps, p.2.session ≠ n) : updatesOf n ps = [] := by
  have hnone : (ps.filter fun p => p.2.session = n) = [] := by
    refine List.filter_eq_nil_iff.2 ?_
    intro p hp
    simpa using h p hp
  rw [updatesOf, hnone, List.flatMap_nil]

/-- Later requests change nothing about the sessions of earlier executions. -/
theorem scene?_append {message : Wire.SessionMessage} (h : scene? qs ps x = some message) :
    scene? (qs ++ qs') (ps ++ ps') x = some message := by
  obtain ⟨p, hp, hrest⟩ := Option.bind_eq_some_iff.1 h
  obtain ⟨q, hq, hmessage⟩ := Option.map_eq_some_iff.1 hrest
  have hmem : ∃ p ∈ ps, p.1 = x :=
    ⟨p, List.mem_of_find?_eq_some hp, by simpa using List.find?_some hp⟩
  rw [scene?, List.find?_append, hp, Option.some_or, Option.bind_some, List.find?_append, hq,
    Option.some_or, Option.map_some, upTo_append hmem, hmessage]

theorem find?_concat {α β : Type} [DecidableEq α] {k : α} {kvs : List (α × β)}
    (h : ∀ kv ∈ kvs, kv.1 ≠ k) (b : β) :
    (kvs ++ [(k, b)]).find? (fun kv => kv.1 = k) = some (k, b) := by
  have hnone : kvs.find? (fun kv => kv.1 = k) = none := by
    refine List.find?_eq_none.2 ?_
    intro kv hkv
    simpa using h kv hkv
  rw [List.find?_append, hnone]
  simp

end Requests

/-! ## Sessions -/

/-- The sessions are what the requests have made of them, and run the execution that was begun last
in them. -/
structure Staged (qs : List (SessionName × SessionRequest))
    (ps : List (ExecutionName × ExecutionRequest)) (c : Coordinator) : Prop where
  sessions : ∀ n s, c.sessions.find? n = some s → ∃ r,
    qs.find? (fun q => q.1 = n) = some (n, r) ∧
      s.message = ⟨n, r.producer, r.format, r.resources, updatesOf n ps⟩
  /-- No update has come since the execution was begun. -/
  running : ∀ n s x, c.sessions.find? n = some s → s.running = some x → ∃ r,
    ps.find? (fun p => p.1 = x) = some (x, r) ∧ r.session = n ∧
      updatesOf n (upTo x ps) = updatesOf n ps
  begun : ∀ p ∈ ps, p.1 ∈ c.executions.keys
  housed : ∀ p ∈ ps, p.2.session ∈ qs.map Prod.fst

variable {past : List (Moment × Event)} {c c' : Coordinator} {m : Moment} {event : Event}
  {qs : List (SessionName × SessionRequest)} {ps : List (ExecutionName × ExecutionRequest)}

theorem Staged.scene (h : Staged qs ps c) {n : SessionName} {s : Session} {x : ExecutionName}
    (hs : c.sessions.find? n = some s) (hx : s.running = some x) :
    scene? qs ps x = some s.message := by
  obtain ⟨r, hr, hmessage⟩ := h.sessions n s hs
  obtain ⟨r', hr', rfl, hupdates⟩ := h.running n s x hs hx
  rw [scene?, hr', Option.bind_some]
  dsimp only
  rw [hr, Option.map_some, hmessage]
  dsimp only
  rw [hupdates]

/-- A session may be gone or run nothing any longer. -/
theorem Staged.less (h : Staged qs ps c) (hx : ∀ x ∈ c.executions.keys, x ∈ c'.executions.keys)
    (hs : ∀ n s, c'.sessions.find? n = some s → ∃ s₀, c.sessions.find? n = some s₀ ∧
      s.message = s₀.message ∧ (s.running = s₀.running ∨ s.running = none)) : Staged qs ps c' := by
  constructor
  case sessions =>
    intro n s hn
    obtain ⟨s₀, hs₀, hmessage, _⟩ := hs n s hn
    rw [hmessage]
    exact h.sessions n s₀ hs₀
  case running =>
    intro n s x hn hrun
    obtain ⟨s₀, hs₀, _, hsame | hnone⟩ := hs n s hn
    · exact h.running n s₀ x hs₀ (hsame ▸ hrun)
    · rw [hnone] at hrun
      cases hrun
  case begun =>
    intro p hp
    exact hx p.1 (h.begun p hp)
  case housed => exact h.housed

theorem Staged.same (h : Staged qs ps c) (hs : c'.sessions = c.sessions)
    (hx : c'.executions = c.executions) : Staged qs ps c' := by
  refine h.less (by simp [hx]) ?_
  intro n s hn
  exact ⟨s, hs ▸ hn, rfl, .inl rfl⟩

theorem tell_staged (hg : Grounded past c) (h : Staged qs ps c) (now : Nat) (notice : Notice) :
    Staged qs ps (tell now c notice) := by
  obtain ⟨x, call⟩ := notice
  rcases hg.tell_cases now x call with hsame | ⟨e, he, _, _, htold⟩
  · rwa [hsame]
  · refine h.less ?_ ?_
    · intro y hy
      rw [htold.executions]
      exact OrderedMap.mem_keys_insert.2 (.inr hy)
    · intro n s hs
      rw [htold.sessions] at hs
      split at hs
      · rw [Sessions.find?_endExecution] at hs
        obtain ⟨s₀, hs₀, rfl⟩ := Option.map_eq_some_iff.1 hs
        refine ⟨s₀, hs₀, ?_⟩
        split
        · exact ⟨rfl, .inr rfl⟩
        · exact ⟨rfl, .inl rfl⟩
      · exact ⟨s, hs, rfl, .inl rfl⟩

/-! ## Requests on sessions -/

theorem Staged.joined (h : Staged qs ps c) {n : SessionName} (hnew : n ∉ qs.map Prod.fst)
    (r : SessionRequest) (hs : c'.sessions = c.sessions.create n r)
    (hx : c'.executions = c.executions) : Staged (qs ++ [(n, r)]) ps c' := by
  have hfresh : ∀ q ∈ qs, q.1 ≠ n := by
    rintro q hq rfl
    exact hnew (List.mem_map_of_mem hq)
  constructor
  case sessions =>
    intro k s hk
    rw [hs, Sessions.create, OrderedMap.find?_insert] at hk
    split at hk
    · rename_i heq
      cases hk
      subst heq
      have hupdates : updatesOf n ps = [] := by
        refine updatesOf_nil ?_
        intro p hp heq
        exact hnew (heq ▸ h.housed p hp)
      refine ⟨r, find?_concat hfresh r, ?_⟩
      rw [hupdates]
      rfl
    · obtain ⟨r', hr', hmessage⟩ := h.sessions k s hk
      exact ⟨r', by rw [List.find?_append, hr', Option.some_or], hmessage⟩
  case running =>
    intro k s x hk hrun
    rw [hs, Sessions.create, OrderedMap.find?_insert] at hk
    split at hk
    · cases hk
      cases hrun
    · exact h.running k s x hk hrun
  case housed =>
    intro p hp
    rw [List.map_append]
    exact List.mem_append_left _ (h.housed p hp)
  case begun => exact hx ▸ h.begun

theorem Staged.started (h : Staged qs ps c) {r : ExecutionRequest} {x : ExecutionName} {s : Session}
    {e : Execution} (hnew : x ∉ c.executions.keys) (hfind : c.sessions.find? r.session = some s)
    (hs : c'.sessions = c.sessions.insert r.session (s.begin r x))
    (hx : c'.executions = c.executions.insert x e) : Staged qs (ps ++ [(x, r)]) c' := by
  have hfresh : ∀ p ∈ ps, p.1 ≠ x := by
    intro p hp heq
    exact hnew (heq ▸ h.begun p hp)
  obtain ⟨r₀, hr₀, hmessage⟩ := h.sessions r.session s hfind
  constructor
  case sessions =>
    intro k t hk
    rw [updatesOf_concat]
    rw [hs, OrderedMap.find?_insert] at hk
    split at hk
    · rename_i heq
      cases hk
      subst heq
      refine ⟨r₀, hr₀, ?_⟩
      obtain ⟨hname, hproducer, hformat, hresources, hupdates⟩ :=
        Wire.SessionMessage.mk.inj hmessage
      rw [if_pos rfl]
      simp only [Session.message, Session.begin, hname, hproducer, hformat, hresources, hupdates]
    · rename_i hne
      rw [if_neg hne, List.append_nil]
      exact h.sessions k t hk
  case running =>
    intro k t y hk hrun
    rw [hs, OrderedMap.find?_insert] at hk
    split at hk
    · rename_i heq
      cases hk
      cases hrun
      exact ⟨r, find?_concat hfresh r, heq, by rw [upTo_concat hfresh]⟩
    · -- the request is not about this session, so the session gets no update from it
      rename_i hne
      obtain ⟨r', hr', hsession, hupdates⟩ := h.running k t y hk hrun
      have hmem : ∃ p ∈ ps, p.1 = y := ⟨(y, r'), List.mem_of_find?_eq_some hr', rfl⟩
      refine ⟨r', by rw [List.find?_append, hr', Option.some_or], hsession, ?_⟩
      rw [upTo_append hmem, updatesOf_concat, if_neg hne, List.append_nil]
      exact hupdates
  case begun =>
    intro p hp
    rw [hx]
    rcases List.mem_append.1 hp with hp | hp
    · exact OrderedMap.mem_keys_insert.2 (.inr (h.begun p hp))
    · cases List.mem_singleton.1 hp
      exact OrderedMap.mem_keys_insert.2 (.inl rfl)
  case housed =>
    intro p hp
    rcases List.mem_append.1 hp with hp | hp
    · exact h.housed p hp
    · cases List.mem_singleton.1 hp
      exact List.mem_map_of_mem (List.mem_of_find?_eq_some hr₀) (f := Prod.fst)

theorem opening_unasked (h : Staged qs ps c) (hev : event.asksName = false) :
    Staged qs ps (c.opening m event).coordinator := by
  have hopens := opens c m event
  generalize c.opening m event = o at hopens
  cases hopens with
  | still _ hs | finished hs | fetched hs => exact h.same hs.sessions hs.executions
  | heard | resynced | failed | undelivered | timedOut => exact h.same rfl rfl
  | parted hd =>
    obtain ⟨_, _, _, rfl⟩ := Sessions.delete_eq_ok.1 hd
    refine h.less (fun _ hx => hx) ?_
    intro n s hs
    exact ⟨s, OrderedMap.find?_of_erase hs, rfl, .inl rfl⟩
  | joined | refused | begun => cases hev

/-- An execution is announced if the session lets it run, under the name that it got. -/
theorem begins?_createExecution (c : Coordinator) (m : Moment) (r : ExecutionRequest) :
    (Event.createExecution r).begins? (c.react m (.createExecution r)).reply =
      match c.sessions.beginExecution r (c.upcomingName m) with
      | .ok _ => some (c.upcomingName m, r)
      | .error _ => none := by
  have hname : ExecutionName.mk (c.names.next "execution" m.wallClock).1 = c.upcomingName m := rfl
  simp only [react, createExecution, hname]
  cases c.sessions.beginExecution r (c.upcomingName m) with
  | error f => rfl
  | ok begun =>
    obtain ⟨s, sessions⟩ := begun
    have hsound := Execution.create_sound c.settings.executionPolicy (c.upcomingName m) r.session
      r.parallel s.hasResources m.now
    have hkept := fun ctx => (Execution.respond_accounts hsound (.start ctx)).terms.name
    exact congrArg (fun x => some (x, r)) (hkept _)

theorem opening_staged (hg : Grounded past c) (h : Staged qs ps c)
    (hqs : event.asksName = true → c.upcomingSession m ∉ qs.map Prod.fst)
    (hn : (stamps ((m, event) :: past)).Nodup) :
    Staged (qs ++ (event.opens? (c.react m event).reply).toList)
      (ps ++ (event.begins? (c.react m event).reply).toList) (c.opening m event).coordinator := by
  cases event with
  | createSession r =>
    have hjoined : Staged (qs ++ [(c.upcomingSession m, r)]) (ps ++ [])
        (c.createSession m.wallClock r).coordinator := by
      rw [List.append_nil]
      exact h.joined (hqs rfl) r rfl rfl
    exact hjoined
  | createExecution r =>
    have hname : ExecutionName.mk (c.names.next "execution" m.wallClock).1 = c.upcomingName m := rfl
    rw [begins?_createExecution]
    simp only [Event.opens?, Option.toList_none, List.append_nil, opening, hname]
    cases hb : c.sessions.beginExecution r (c.upcomingName m) with
    | error f =>
      simp only [Option.toList_none, List.append_nil]
      exact h.same rfl rfl
    | ok begun =>
      obtain ⟨s, sessions⟩ := begun
      obtain ⟨t, hfind, _, _, _, rfl, rfl⟩ := Sessions.beginExecution_eq_ok.1 hb
      exact h.started (hg.toNamed.fresh hn rfl) hfind rfl rfl
  | _ =>
    simp only [Event.opens?, Event.begins?, Option.toList_none, List.append_nil]
    exact opening_unasked h rfl

/-! ## Runs -/

theorem opens?_eq_some {q : SessionName × SessionRequest}
    (h : event.opens? (c.handle m event).reply = some q) :
    event.asksName = true ∧ q.1 = c.upcomingSession m := by
  rw [handle_reply] at h
  cases event with
  | createSession r =>
    cases h
    exact ⟨rfl, rfl⟩
  | _ => cases h

theorem opened_stamped (settings : Settings) (past : List (Moment × Event)) :
    ∀ n ∈ (opened settings past).map Prod.fst, ∃ stamp ∈ stamps past, n = stampedSession stamp := by
  induction past with
  | nil => exact nofun
  | cons p past ih =>
    obtain ⟨m, event⟩ := p
    intro n hn
    rw [opened, List.map_append] at hn
    rcases List.mem_append.1 hn with hn | hn
    · obtain ⟨stamp, hstamp, heq⟩ := ih n hn
      exact ⟨stamp, mem_stamps_cons (m, event) hstamp, heq⟩
    · obtain ⟨q, hq, rfl⟩ := List.mem_map.1 hn
      obtain ⟨hev, hname⟩ := opens?_eq_some (Option.mem_toList.1 hq)
      rw [(after_grounded settings past).upcoming_session] at hname
      exact ⟨_, by simp [stamps, hev], hname⟩

theorem upcoming_unopened (settings : Settings) (hn : (stamps ((m, event) :: past)).Nodup)
    (hev : event.asksName = true) :
    (after settings past).upcomingSession m ∉ (opened settings past).map Prod.fst := by
  intro hmem
  obtain ⟨stamp, hstamp, heq⟩ := opened_stamped settings past _ hmem
  exact (after_grounded settings past).upcoming_ne hn hev hstamp heq

theorem reacted_staged (settings : Settings)
    (h : Staged (opened settings past) (accepted settings past) (after settings past))
    (hn : (stamps ((m, event) :: past)).Nodup) :
    Staged (opened settings ((m, event) :: past)) (accepted settings ((m, event) :: past))
      ((after settings past).react m event).coordinator := by
  have hg := after_grounded settings past
  have hopening := opening_staged hg h (upcoming_unopened settings hn) hn
  simp only [opened, accepted, handle_reply]
  refine (react_keeps (P := fun c => Grounded ((m, event) :: past) c ∧ Staged _ _ c)
    ⟨opening_grounded hg m event, hopening⟩ ?_).2
  rintro c notice ⟨hg, h⟩
  exact ⟨tell_grounded m.now notice hg, tell_staged hg h m.now notice⟩

theorem after_staged (settings : Settings) {past : List (Moment × Event)}
    (hn : (stamps past).Nodup) :
    Staged (opened settings past) (accepted settings past) (after settings past) := by
  induction past with
  | nil =>
    refine ⟨?_, ?_, nofun, nofun⟩
    · intro n s hs
      cases hs
    · intro n s x hs
      cases hs
  | cons p past ih =>
    obtain ⟨m, event⟩ := p
    have hreact := reacted_staged settings (ih (stamps_tail hn)) hn
    exact handle_of_react hreact fun _ h => h.same rfl rfl

/-! ## Names -/

theorem begins?_eq_some {p : ExecutionName × ExecutionRequest}
    (h : event.begins? (c.handle m event).reply = some p) :
    event.asksName = true ∧ p.1 = c.upcomingName m := by
  rw [handle_reply] at h
  cases event with
  | createExecution r =>
    rw [begins?_createExecution] at h
    split at h <;> cases h
    exact ⟨rfl, rfl⟩
  | _ => cases h

/-- A name that was announced before is not announced again. -/
theorem names_nodup (settings : Settings) {past : List (Moment × Event)}
    (hn : (stamps past).Nodup) : ((opened settings past).map Prod.fst).Nodup ∧
      ((accepted settings past).map Prod.fst).Nodup := by
  induction past with
  | nil => exact ⟨List.nodup_nil, List.nodup_nil⟩
  | cons p past ih =>
    obtain ⟨m, event⟩ := p
    obtain ⟨hopened, haccepted⟩ := ih (stamps_tail hn)
    simp only [opened, accepted, List.map_append]
    refine ⟨?_, ?_⟩
    · cases hq : event.opens? ((after settings past).handle m event).reply with
      | none => simpa using hopened
      | some q =>
        obtain ⟨hev, hname⟩ := opens?_eq_some hq
        have hnew := hname ▸ upcoming_unopened settings hn hev
        exact List.concat_eq_append ▸ hopened.concat hnew
    · cases hp : event.begins? ((after settings past).handle m event).reply with
      | none => simpa using haccepted
      | some p =>
        obtain ⟨hev, hname⟩ := begins?_eq_some hp
        have hnew : p.1 ∉ (accepted settings past).map Prod.fst := by
          intro hmem
          obtain ⟨p', hp', heq⟩ := List.mem_map.1 hmem
          have hkey := (after_staged settings (stamps_tail hn)).begun p' hp'
          rw [heq, hname] at hkey
          exact (after_grounded settings past).toNamed.fresh hn hev hkey
        exact List.concat_eq_append ▸ haccepted.concat hnew

/-! ## Messages -/

/-- Whoever gets a task of an execution gets the session as it was when the execution was begun: the
execution goes on, so its session is marked with it and has not been updated since. -/
theorem dispatch_scenes (hq : Queued c) (ho : Occupied c) (hl : Loaded c) (h : Staged qs ps c)
    {now : Nat} {w : Worker} {message : Wire.TaskMessage} {ticket : Ticket}
    (hc : .run w message ticket ∈ (dispatch now c).commands) :
    scene? qs ps message.execution = some message.session := by
  obtain ⟨a, ha, hdeliver⟩ := List.mem_flatMap.1 hc
  obtain ⟨_, s, hfind, rfl⟩ := prepare_eq_ok.1 (run_deliver hdeliver)
  obtain ⟨⟨t, ht, work, htask, _⟩, _⟩ :=
    (Schedule.draws_dispatch c.schedule c.fleet now).made a ha
  have hsession : a.task.session = t.session := by rw [htask]
  have hexecution : a.task.execution = t.execution := by rw [htask]
  have hrunning := (ho.flag t.session s (hsession ▸ hfind) t.execution).2 (hq.runs hl ht)
  simp only [taskMessage, hexecution]
  exact h.scene (hsession ▸ hfind) hrunning

structure ScenesFixed (settings : Settings) (past : List (Moment × Event)) : Prop where
  sent : ∀ w message ticket, .run w message ticket ∈ commands settings past →
    scene? (opened settings past) (accepted settings past) message.execution =
      some message.session
  identical : ∀ w message ticket w' message' ticket',
    .run w message ticket ∈ commands settings past →
    .run w' message' ticket' ∈ commands settings past →
    message'.execution = message.execution → message'.session = message.session
  /-- A name stands for one request. -/
  sessions : ((opened settings past).map Prod.fst).Nodup
  executions : ((accepted settings past).map Prod.fst).Nodup

theorem sent_scene (settings : Settings) {past : List (Moment × Event)} (hn : (stamps past).Nodup)
    {w : Worker} {message : Wire.TaskMessage} {ticket : Ticket}
    (hc : .run w message ticket ∈ commands settings past) :
    scene? (opened settings past) (accepted settings past) message.execution =
      some message.session := by
  induction past with
  | nil => cases List.mem_singleton.1 hc
  | cons p past ih =>
    obtain ⟨m, event⟩ := p
    rcases List.mem_append.1 hc with hc | hc
    · have hn' := stamps_tail hn
      have hgrounded := after_grounded settings past
      have hsettled := (after_settled settings hn').1
      obtain ⟨_, hdispatch⟩ := handle_commands hc rfl
      exact dispatch_scenes (reacted_hosted settings past m event).2
        (reacted_occupied hgrounded (after_occupied settings hn') hn)
        (reacted_loaded hgrounded hsettled (after_loaded settings hn') hn)
        (reacted_staged settings (after_staged settings hn') hn) hdispatch
    · exact scene?_append (ih (stamps_tail hn) hc)

/-- In every run in which no name is given twice, the tasks of an execution are sent with one and
the same session: what was requested, and the updates up to the one of this execution. -/
theorem scenes_fixed (settings : Settings) (past : List (Moment × Event))
    (hn : (stamps past).Nodup) : ScenesFixed settings past where
  sent := fun _ _ _ hc => sent_scene settings hn hc
  identical := by
    intro w message ticket w' message' ticket' hc hc' heq
    have hscene := sent_scene settings hn hc'
    rw [heq, sent_scene settings hn hc] at hscene
    exact (Option.some.inj hscene).symm
  sessions := (names_nodup settings hn).1
  executions := (names_nodup settings hn).2

/-- Three requests in one session, of which the second comes while the first is still running; the
first task of the third fails. -/
def revisedRun : List (Moment × Event) :=
  [.taskFailed ⟨"w"⟩ ⟨"execution7-4-task1"⟩ "no memory",
    createExecution "dusk",
    finished ⟨"execution7-2-task3"⟩,
    finished ⟨"execution7-2-task2"⟩,
    finished ⟨"execution7-2-task1"⟩,
    createExecution "noon",
    createExecution "dawn",
    .createSession ⟨none, [], "p", "f"⟩,
    .pong ⟨⟨"w"⟩, [], []⟩,
    .instancesListed (.ok [⟨⟨"w"⟩, "10.0.0.1", 5000, 9000⟩])].map fun e => (⟨"7", 0⟩, e)
where
  createExecution (update : String) : Event :=
    .createExecution ⟨⟨"session7-1"⟩, none, 1, some (.str update)⟩
  finished (n : TaskName) : Event := .taskFinished ⟨"w"⟩ n 20 none none

/-- The task that is sent, and the updates that are texts. -/
def textsSent? : Command → Option (TaskName × List String)
  | .run _ message _ => some (message.name, message.session.updates.filterMap fun
    | .str s => some s
    | _ => none)
  | _ => none

theorem scenes_fixed_sample :
    ScenesFixed sampleSettings revisedRun ∧
    (commands sampleSettings revisedRun).filterMap textsSent? =
      [(⟨"execution7-4-task2"⟩, ["dawn", "dusk"]),
        (⟨"execution7-4-task1"⟩, ["dawn", "dusk"]),
        (⟨"execution7-2-task3"⟩, ["dawn"]),
        (⟨"execution7-2-task2"⟩, ["dawn"]),
        (⟨"execution7-2-task1"⟩, ["dawn"])] :=
  ⟨scenes_fixed sampleSettings revisedRun (stamps_nodup (by decide)), by decide +kernel⟩

end Coordinator
end RenderFarm
