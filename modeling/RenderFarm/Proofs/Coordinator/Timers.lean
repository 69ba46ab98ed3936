import RenderFarm.Proofs.Coordinator.Probes

/-!
# RenderFarm.Proofs.Coordinator.Timers

No task is ever on a worker without a timer that will ask about it in time.

* `Ticking settings past timers`: a run in which what the coordinator posts to itself comes back as
  it was posted, a timer once, and the timers that are still set after it.
* `Covered now timers c`: every attempt has a timer that is due before its task is late, and one
  more at most for every time that the timeout was adjusted.
* `flights_timed`: so it is after every event.
-/

namespace RenderFarm
namespace Coordinator

/-! ## Runs with timers -/

/-- The time of the last event. -/
def present : List (Moment × Event) → Nat
  | [] => 0
  | (m, _) :: _ => m.now

/-- In the run, the clock does not go back; failed deliveries are reported as they happened; and a
timer goes off after it was set, once, at whatever time. The timers are those that are still set. -/
inductive Ticking (settings : Settings) : List (Moment × Event) → List Timer → Prop where
  | start : Ticking settings [] []
  | handled {past : List (Moment × Event)} {timers : List Timer} {m : Moment} {event : Event} :
      Ticking settings past timers → present past ≤ m.now →
      event.isProbe = false →
      (event.isOwn = true → ∃ cmd ∈ commands settings past, cmd.brings event = true) →
      Ticking settings ((m, event) :: past)
        (timersOf m.now ((after settings past).handle m event).commands ++ timers)
  | fired {past : List (Moment × Event)} {timers : List Timer} {m : Moment} {T : Timer} :
      Ticking settings past timers → present past ≤ m.now → T ∈ timers →
      Ticking settings ((m, .probeTimeout T.task T.ticket) :: past)
        (timersOf m.now ((after settings past).handle m (.probeTimeout T.task T.ticket)).commands
          ++ timers.erase T)

section Ticking

variable {settings : Settings} {past : List (Moment × Event)} {timers : List Timer}

/-- An event that the coordinator never posts to itself. -/
theorem Ticking.heard {m : Moment} {event : Event} {timers' : List Timer}
    (h : Ticking settings past timers) (hclock : present past ≤ m.now)
    (hprobe : event.isProbe = false) (hown : event.isOwn = false)
    (htimers : timersOf m.now ((after settings past).handle m event).commands ++ timers
      = timers') : Ticking settings ((m, event) :: past) timers' := by
  subst htimers
  refine h.handled hclock hprobe fun htrue => ?_
  rw [hown] at htrue
  cases htrue

theorem Ticking.ran {m : Moment} {T : Timer} {timers' : List Timer}
    (h : Ticking settings past timers) (hclock : present past ≤ m.now) (hT : T ∈ timers)
    (htimers : timersOf m.now
      ((after settings past).handle m (.probeTimeout T.task T.ticket)).commands ++ timers.erase T
      = timers') : Ticking settings ((m, .probeTimeout T.task T.ticket) :: past) timers' := by
  subst htimers
  exact h.fired hclock hT

theorem brings_of_mem_timersOf {now : Nat} {cmds : List Command} {T : Timer}
    (hT : T ∈ timersOf now cmds) :
    ∃ cmd ∈ cmds, cmd.brings (.probeTimeout T.task T.ticket) = true := by
  obtain ⟨cmd, hc, htimer⟩ := List.mem_filterMap.1 hT
  refine ⟨cmd, hc, ?_⟩
  unfold Command.timer? at htimer
  split at htimer
  · cases htimer
    simp [Command.brings]
  · cases htimer

theorem Ticking.brings (h : Ticking settings past timers) {T : Timer} (hT : T ∈ timers) :
    ∃ cmd ∈ commands settings past, cmd.brings (.probeTimeout T.task T.ticket) = true := by
  induction h with
  | start => cases hT
  | handled _ _ _ _ ih =>
    rcases List.mem_append.1 hT with hT | hT
    · obtain ⟨cmd, hc, hbrings⟩ := brings_of_mem_timersOf hT
      exact ⟨cmd, List.mem_append_left _ hc, hbrings⟩
    · obtain ⟨cmd, hc, hbrings⟩ := ih hT
      exact ⟨cmd, List.mem_append_right _ hc, hbrings⟩
  | fired _ _ _ ih =>
    rcases List.mem_append.1 hT with hT | hT
    · obtain ⟨cmd, hc, hbrings⟩ := brings_of_mem_timersOf hT
      exact ⟨cmd, List.mem_append_left _ hc, hbrings⟩
    · obtain ⟨cmd, hc, hbrings⟩ := ih (List.mem_of_mem_erase hT)
      exact ⟨cmd, List.mem_append_right _ hc, hbrings⟩

theorem Ticking.genuine (h : Ticking settings past timers) :
    Coordinator.genuine settings past = true := by
  induction h with
  | start => rfl
  | @handled past _ m event _ _ _ hown ih =>
    simp only [Coordinator.genuine, ih, Bool.and_true, Bool.or_eq_true, Bool.not_eq_true']
    cases hev : event.isOwn with
    | false => exact .inl rfl
    | true => exact .inr (List.any_eq_true.2 (hown hev))
  | fired hrun _ hT ih =>
    simp only [Coordinator.genuine, ih, Bool.and_true, Bool.or_eq_true]
    exact .inr (List.any_eq_true.2 (hrun.brings hT))

end Ticking

/-! ## Coverage -/

/-- How often the timeout of the execution was adjusted. -/
def adaptations (c : Coordinator) (x : ExecutionName) : Nat :=
  match c.executions.find? x with
  | some e => e.timeoutAdapted.toNat
  | none => 0

theorem adaptations_le (c : Coordinator) (x : ExecutionName) : c.adaptations x ≤ 1 := by
  unfold adaptations
  cases c.executions.find? x with
  | none => exact Nat.zero_le _
  | some e => exact Bool.toNat_le _

structure Covered (now : Nat) (timers : List Timer) (c : Coordinator) : Prop where
  keyed : c.schedule.Keyed
  flying : ∀ n a, c.schedule.inFlight.find? n = some a → a.ticket < c.schedule.nextTicket
  early : ∀ T ∈ timers, T.ticket < c.schedule.nextTicket
  soon : ∀ n a, c.schedule.inFlight.find? n = some a →
    ∃ T ∈ timers, T.about n a.ticket = true ∧ T.due ≤ now + a.task.timeout
  few : ∀ n a, c.schedule.inFlight.find? n = some a →
    timers.countP (·.about n a.ticket) ≤ 1 + c.adaptations a.task.execution

variable {settings : Settings} {past : List (Moment × Event)} {done : List Tag}
  {timers timers' : List Timer} {c c' : Coordinator} {m : Moment} {event : Event}
  {now now' : Nat} {T : Timer}

theorem Covered.perm (h : Covered now timers c) (hp : timers.Perm timers') :
    Covered now timers' c := by
  refine ⟨h.keyed, h.flying, fun T hT => h.early T (hp.mem_iff.2 hT), fun n a ha => ?_,
    fun n a ha => ?_⟩
  · obtain ⟨T, hT, hsoon⟩ := h.soon n a ha
    exact ⟨T, hp.mem_iff.1 hT, hsoon⟩
  · rw [← hp.countP_eq]
    exact h.few n a ha

theorem Covered.reorder {new newer : List Timer} (h : Covered now (newer ++ (new ++ timers)) c) :
    Covered now (new ++ newer ++ timers) c := by
  refine h.perm ?_
  rw [← List.append_assoc]
  exact List.perm_append_comm.append_right timers

/-- Time passes, and some assignments are over. -/
theorem Covered.fewer (h : Covered now timers c) (hle : now ≤ now')
    (ht : c'.schedule.nextTicket = c.schedule.nextTicket)
    (hf : ∀ n a, c'.schedule.inFlight.find? n = some a → c.schedule.inFlight.find? n = some a)
    (hx : ∀ n a, c.schedule.inFlight.find? n = some a →
      c.adaptations a.task.execution ≤ c'.adaptations a.task.execution) :
    Covered now' timers c' := by
  refine ⟨fun n a ha => ?_, fun n a ha => ?_, fun T hT => ?_, fun n a ha => ?_, fun n a ha => ?_⟩
  · exact h.keyed n a (OrderedMap.mem_entries_iff.2 (hf n a (OrderedMap.mem_entries_iff.1 ha)))
  · rw [ht]
    exact h.flying n a (hf n a ha)
  · rw [ht]
    exact h.early T hT
  · obtain ⟨T, hT, habout, hdue⟩ := h.soon n a (hf n a ha)
    exact ⟨T, hT, habout, by omega⟩
  · exact Nat.le_trans (h.few n a (hf n a ha)) (Nat.add_le_add_left (hx n a (hf n a ha)) 1)

/-- A timer is spent that was about no current assignment. -/
theorem Covered.spent (h : Covered now timers c)
    (hT : ∀ n a, c.schedule.inFlight.find? n = some a → T.about n a.ticket = false) :
    Covered now (timers.erase T) c := by
  refine ⟨h.keyed, h.flying, fun U hU => h.early U (List.mem_of_mem_erase hU), fun n a ha => ?_,
    fun n a ha => ?_⟩
  · obtain ⟨U, hU, habout, hdue⟩ := h.soon n a ha
    refine ⟨U, (List.mem_erase_of_ne ?_).2 hU, habout, hdue⟩
    rintro rfl
    rw [hT n a ha] at habout
    cases habout
  · exact Nat.le_trans List.erase_sublist.countP_le (h.few n a ha)

/-- A timer about a current assignment goes off too early, and is set again. -/
theorem Covered.again (h : Covered now timers c) (hT : T ∈ timers) {a : Assignment}
    (ha : c.schedule.inFlight.find? T.task = some a) (hticket : a.ticket = T.ticket) {due : Nat}
    (hdue : due ≤ now + a.task.timeout) :
    Covered now (⟨due, T.task, T.ticket⟩ :: timers.erase T) c := by
  have hcount : ∀ n ticket, (timers.erase T).countP (·.about n ticket)
      + (if T.about n ticket then 1 else 0) = timers.countP (·.about n ticket) := by
    intro n ticket
    rw [(List.perm_cons_erase hT).countP_eq, List.countP_cons]
  refine ⟨h.keyed, h.flying, fun U hU => ?_, fun n b hb => ?_, fun n b hb => ?_⟩
  · rcases List.mem_cons.1 hU with rfl | hU
    · exact h.early T hT
    · exact h.early U (List.mem_of_mem_erase hU)
  · by_cases hn : T.about n b.ticket = true
    · obtain ⟨rfl, _⟩ := Timer.about_iff.1 hn
      cases ha.symm.trans hb
      exact ⟨_, List.mem_cons_self, hn, hdue⟩
    · obtain ⟨U, hU, habout, hsoon⟩ := h.soon n b hb
      refine ⟨U, List.mem_cons_of_mem _ ((List.mem_erase_of_ne ?_).2 hU), habout, hsoon⟩
      rintro rfl
      exact hn habout
  · have := h.few n b hb
    rw [← hcount] at this
    rw [List.countP_cons]
    exact this

/-! ## What an execution is told -/

/-- The producing tasks of the execution get a new timeout, and a timer each that heeds it. -/
theorem Covered.retimed (h : Covered now timers c) {x : ExecutionName} {timeout : Nat}
    (ht : c'.schedule.nextTicket = c.schedule.nextTicket) (hk : c'.schedule.Keyed)
    (hf : c'.schedule.inFlight = (c.schedule.retime x timeout now).1.inFlight)
    (hx : ∀ y, c.adaptations y ≤ c'.adaptations y) (hmore : c.adaptations x < c'.adaptations x) :
    Covered now (c.schedule.probeTimers x timeout now ++ timers) c' := by
  refine ⟨hk, fun n a ha => ?_, fun T hT => ?_, fun n a ha => ?_, fun n a ha => ?_⟩
  · rw [hf] at ha
    obtain ⟨b, hb, rfl⟩ := Schedule.find?_retime ha
    rw [ht]
    exact h.flying n b hb
  · rw [ht]
    rcases List.mem_append.1 hT with hT | hT
    · obtain ⟨n, a, ha, _, rfl⟩ := Schedule.mem_probeTimers.1 hT
      exact h.flying n a ha
    · exact h.early T hT
  · rw [hf] at ha
    obtain ⟨b, hb, rfl⟩ := Schedule.find?_retime ha
    by_cases hxb : b.task.execution = x ∧ b.task.kind = .producing
    · -- what the attempt has run already is off the new timeout
      refine ⟨_, List.mem_append_left _ (Schedule.mem_probeTimers.2 ⟨n, b, hb, hxb, rfl⟩),
        Timer.about_iff.2 ⟨h.keyed n b (OrderedMap.mem_entries_iff.2 hb), rfl⟩, ?_⟩
      simp only [Schedule.retimed, if_pos hxb]
      omega
    · obtain ⟨T, hT, habout, hdue⟩ := h.soon n b hb
      refine ⟨T, List.mem_append_right _ hT, habout, ?_⟩
      simpa only [Schedule.retimed, if_neg hxb] using hdue
  · rw [hf] at ha
    obtain ⟨b, hb, rfl⟩ := Schedule.find?_retime ha
    have hexecution : (Schedule.retimed x timeout b.task).execution = b.task.execution :=
      congrArg Prod.fst (Schedule.tag_retimed x timeout b.task)
    have hold := h.few n b hb
    have hgrow := hx b.task.execution
    rw [List.countP_append]
    simp only [hexecution]
    by_cases hxb : b.task.execution = x ∧ b.task.kind = .producing
    · have hone : (c.schedule.probeTimers x timeout now).countP (·.about n b.ticket) ≤ 1 :=
        Schedule.countP_probeTimers_le h.keyed n b.ticket
      rw [hxb.1] at hold ⊢
      omega
    · have hnone : (c.schedule.probeTimers x timeout now).countP (·.about n b.ticket) = 0 :=
        Schedule.countP_probeTimers_eq_zero h.keyed hb hxb b.ticket
      omega

theorem adaptations_insert {x y : ExecutionName} {e e' : Execution}
    (he : c.executions.find? x = some e) (hx : c'.executions = c.executions.insert x e')
    (hkept : e.timeoutAdapted = true → e'.timeoutAdapted = true) :
    c.adaptations y ≤ c'.adaptations y := by
  unfold adaptations
  rw [hx, OrderedMap.find?_insert]
  by_cases hxy : x = y
  · subst hxy
    simp only [he, if_true]
    cases hadapted : e.timeoutAdapted with
    | false => exact Nat.zero_le _
    | true => exact Nat.le_of_eq (by rw [hkept hadapted])
  · exact Nat.le_of_eq (by rw [if_neg hxy])

theorem Covered.told (h : Covered now timers c) (hg : Grounded past c) (notice : Notice) :
    Covered now (timersOf now (telling now c notice).commands ++ timers)
      (telling now c notice).coordinator := by
  obtain ⟨x, call⟩ := notice
  cases he : c.executions.find? x with
  | none =>
    simp only [telling, he]
    exact h
  | some e =>
    obtain ⟨hname, hs⟩ := hg.sound he
    have hx : (telling now c (x, call)).coordinator.executions
        = c.executions.insert x (e.respond call).1 := by
      rw [telling_coordinator]
      exact (Coordinator.told hname hs he now call).executions
    obtain ⟨_, _, _, hsteady⟩ := tell_frame now c (x, call)
    rw [← telling_coordinator] at hsteady
    have hnext : (telling now c (x, call)).coordinator.schedule.nextTicket
        = c.schedule.nextTicket := congrArg TicketSource.upcoming hsteady.tickets
    rcases telling_adjusts hname hs he now call with ⟨hcommands, hflights, hkept⟩ |
      ⟨hbefore, hafter, timeout, hcommands, hflights⟩
    · rw [hcommands, timersOf_nil, List.nil_append]
      refine h.fewer (Nat.le_refl _) hnext (fun n a ha => ?_) fun n a _ =>
        adaptations_insert he hx hkept
      rwa [hflights] at ha
    · rw [hcommands, timersOf_probes]
      refine h.retimed hnext (hsteady.keyed h.keyed) hflights
        (fun y => adaptations_insert he hx fun _ => hafter) ?_
      have hold : c.adaptations x = 0 := by simp [adaptations, he, hbefore]
      have hnew : (telling now c (x, call)).coordinator.adaptations x = 1 := by
        simp [adaptations, hx, OrderedMap.find?_insert, hafter]
      omega

theorem Covered.tells (h : Covered now timers c) (hg : Grounded past c) (notices : List Notice) :
    Covered now (timersOf now (turns (telling now) notices c).commands ++ timers)
      (turns (telling now) notices c).coordinator := by
  induction notices generalizing c timers with
  | nil => exact h
  | cons notice notices ih =>
    have hg' : Grounded past (telling now c notice).coordinator := by
      rw [telling_coordinator]
      exact tell_grounded now notice hg
    simp only [turns, Turn.andThen, timersOf_append]
    exact (ih (h.told hg notice) hg').reorder

/-! ## Dispatch passes -/

/-- A pass sets a timer for every new assignment, under a ticket that no timer has yet. -/
theorem Covered.dispatched (h : Covered now timers c) (hr : Ready c) :
    Covered now (timersOf now (dispatch now c).commands ++ timers)
      (dispatch now c).coordinator := by
  obtain ⟨as, hd⟩ := Schedule.dealt_dispatch c.schedule c.fleet now
  rw [timersOf_dispatch hr hd]
  refine ⟨hd.keyed h.keyed, hd.flying h.flying, fun T hT => ?_, fun n a ha => ?_,
    fun n a ha => ?_⟩
  · rcases List.mem_append.1 hT with hT | hT
    · obtain ⟨a, ha, rfl⟩ := List.mem_map.1 hT
      exact (hd.ticket ha).2
    · exact Nat.lt_of_lt_of_le (h.early T hT) hd.nextTicket_le
  · rcases hd.find? ha with ⟨ha, hname⟩ | ha
    · exact ⟨_, List.mem_append_left _ (List.mem_map_of_mem ha),
        Timer.about_iff.2 ⟨hname, rfl⟩, Nat.le_refl _⟩
    · obtain ⟨T, hT, hsoon⟩ := h.soon n a ha
      exact ⟨T, List.mem_append_right _ hT, hsoon⟩
  · show _ ≤ 1 + c.adaptations a.task.execution
    rw [List.countP_append]
    rcases hd.find? ha with ⟨ha, _⟩ | ha
    · have hold : timers.countP (·.about n a.ticket) = 0 := by
        refine List.countP_eq_zero.2 fun T hT habout => ?_
        have hticket : T.ticket = a.ticket := (Timer.about_iff.1 habout).2
        exact absurd (hticket ▸ h.early T hT) (Nat.not_lt.2 (hd.ticket ha).1)
      have hone : (as.map (Assignment.timer now)).countP (·.about n a.ticket) ≤
          (as.map Assignment.ticket).count a.ticket := by
        rw [List.count_eq_countP, List.countP_map, List.countP_map]
        exact List.countP_mono_left fun b _ hb => beq_iff_eq.2 (Timer.about_iff.1 hb).2
      have hnodup := List.nodup_iff_count_le_one.1 hd.tickets_nodup a.ticket
      omega
    · have hnone : (as.map (Assignment.timer now)).countP (·.about n a.ticket) = 0 := by
        refine List.countP_eq_zero.2 fun T hT habout => ?_
        obtain ⟨b, hb, rfl⟩ := List.mem_map.1 hT
        have hticket : b.ticket = a.ticket := (Timer.about_iff.1 habout).2
        exact absurd (hticket ▸ h.flying n a ha) (Nat.not_lt.2 (hd.ticket hb).1)
      have := h.few n a ha
      omega

/-! ## Events -/

theorem opening_adaptations (hg : Grounded past c) (hs : Settled done c)
    (hn : (stamps ((m, event) :: past)).Nodup) {n : TaskName} {a : Assignment}
    (ha : c.schedule.inFlight.find? n = some a) :
    (c.opening m event).coordinator.adaptations a.task.execution =
      c.adaptations a.task.execution := by
  obtain ⟨e, he, _⟩ := hs.known _ _ (List.mem_append_left _ (mem_scheduled_flight ha))
  have hkept := opening_executions hg hn he
  simp only [adaptations, he, hkept]

theorem Covered.opened (h : Covered now timers c) (hg : Grounded past c) (hs : Settled done c)
    (hn : (stamps ((m, event) :: past)).Nodup) (hle : now ≤ m.now) :
    Covered m.now timers (c.opening m event).coordinator := by
  obtain ⟨hnext, hflights⟩ := opening_flights c m event
  exact h.fewer hle hnext hflights fun n a ha => Nat.le_of_eq (opening_adaptations hg hs hn ha).symm

/-- A timer goes off: the task is late or no longer there, or the timer is set again. -/
theorem Covered.fires (hT : T ∈ timers)
    (h : Covered m.now timers (c.opening m (.probeTimeout T.task T.ticket)).coordinator) :
    Covered m.now (c.rearmed m.now T.task T.ticket ++ timers.erase T)
      (c.opening m (.probeTimeout T.task T.ticket)).coordinator := by
  obtain ⟨_, hflights⟩ := opening_flights c m (.probeTimeout T.task T.ticket)
  cases hcurrent : c.schedule.current? T.task T.ticket with
  | none =>
    have hrearmed : c.rearmed m.now T.task T.ticket = [] := by
      simp [rearmed, Schedule.expire, hcurrent]
    rw [hrearmed]
    refine h.spent fun n a ha => ?_
    rw [← Bool.not_eq_true]
    intro habout
    obtain ⟨rfl, hticket⟩ := Timer.about_iff.1 habout
    rw [Schedule.current?_eq_some.2 ⟨hflights _ a ha, hticket.symm⟩] at hcurrent
    cases hcurrent
  | some a =>
    obtain ⟨ha, hticket⟩ := Schedule.current?_eq_some.1 hcurrent
    by_cases htime : m.now - a.since < a.task.timeout
    · have hrearmed : c.rearmed m.now T.task T.ticket =
          [⟨m.now + (a.task.timeout - (m.now - a.since)), T.task, T.ticket⟩] := by
        simp [rearmed, Schedule.expire, hcurrent, htime]
      have hsame : (c.opening m (.probeTimeout T.task T.ticket)).coordinator = c := by
        simp [opening, Schedule.expire, hcurrent, htime]
      rw [hsame] at h ⊢
      rw [hrearmed]
      exact h.again hT ha hticket (Nat.add_le_add_left (Nat.sub_le _ _) _)
    · have hrearmed : c.rearmed m.now T.task T.ticket = [] := by
        simp [rearmed, Schedule.expire, hcurrent, htime]
      have hgone : (c.opening m (.probeTimeout T.task T.ticket)).coordinator.schedule.inFlight =
          c.schedule.inFlight.erase T.task := by
        simp [opening, Schedule.expire, hcurrent, htime, evict, Schedule.release]
      rw [hrearmed]
      refine h.spent fun n b hb => ?_
      rw [← Bool.not_eq_true]
      intro habout
      obtain ⟨rfl, _⟩ := Timer.about_iff.1 habout
      rw [hgone, OrderedMap.find?_erase, if_pos rfl] at hb
      cases hb

theorem Covered.handled
    (h : Covered m.now (timersOf m.now (c.ownCommands m event) ++ timers)
      (c.opening m event).coordinator)
    (hg : Grounded past (c.opening m event).coordinator)
    (hr : (c.react m event).wakes = true → Ready (c.react m event).coordinator) :
    Covered m.now (timersOf m.now (c.handle m event).commands ++ timers)
      (c.handle m event).coordinator := by
  obtain ⟨hcoordinator, hcommands⟩ := react_turn c m event
  have hreact : Covered m.now (timersOf m.now (c.react m event).commands ++ timers)
      (c.react m event).coordinator := by
    rw [hcoordinator, hcommands, timersOf_append]
    exact (h.tells hg (c.opening m event).notices).reorder
  simp only [handle]
  split
  · rename_i hwakes
    rw [timersOf_append]
    exact (hreact.dispatched (hr hwakes)).reorder
  · exact hreact

/-! ## Runs -/

theorem after_covered (settings : Settings) (h : Ticking settings past timers)
    (hd : dispatches settings past < Word.top) (hn : (stamps past).Nodup) :
    Covered (present past) timers (after settings past) := by
  induction h with
  | start =>
    refine ⟨?_, ?_, ?_, ?_, ?_⟩
    · intro n a ha
      cases ha
    · intro n a ha
      cases ha
    · intro T hT
      cases hT
    · intro n a ha
      cases ha
    · intro n a ha
      cases ha
  | @handled past timers m event hrun hclock hprobe hown ih =>
    have hsum : dispatches settings ((m, event) :: past)
      = dispatches settings past + (after settings past).due m event := rfl
    have hn' := stamps_tail hn
    have hgrounded := after_grounded settings past
    have hopened : Covered m.now timers ((after settings past).opening m event).coordinator :=
      (ih (by omega) hn').opened hgrounded (after_settled settings hn').1 hn hclock
    have hnone : timersOf m.now ((after settings past).ownCommands m event) = [] :=
      timersOf_ownCommands hprobe
    refine Covered.handled ?_ (opening_grounded hgrounded m event) fun hwakes =>
      reacted_ready settings hd (hrun.handled hclock hprobe hown).genuine hn hwakes
    rwa [hnone]
  | @fired past timers m T hrun hclock hT ih =>
    have hsum : dispatches settings ((m, .probeTimeout T.task T.ticket) :: past)
      = dispatches settings past +
        (after settings past).due m (.probeTimeout T.task T.ticket) := rfl
    have hn' := stamps_tail hn
    have hgrounded := after_grounded settings past
    have hopened := (ih (by omega) hn').opened hgrounded (after_settled settings hn').1 hn hclock
    have hfires := hopened.fires hT
    rw [← timersOf_probeTimeout] at hfires
    exact hfires.handled (opening_grounded hgrounded m _) fun hwakes =>
      reacted_ready settings hd (hrun.fired hclock hT).genuine hn hwakes

/-! ## Every attempt is timed -/

/-- About every attempt there is a timer that goes off before the task would be late if it had
begun now, and one more timer at most. -/
def Timed (now : Nat) (timers : List Timer) (c : Coordinator) : Prop :=
  ∀ n a, c.schedule.inFlight.find? n = some a →
    (∃ T ∈ timers, T.about n a.ticket = true ∧ T.due ≤ now + a.task.timeout) ∧
    1 ≤ timers.countP (·.about n a.ticket) ∧ timers.countP (·.about n a.ticket) ≤ 2

theorem Covered.timed (h : Covered now timers c) : Timed now timers c := by
  intro n a ha
  obtain ⟨T, hT, habout, hdue⟩ := h.soon n a ha
  have hfew := h.few n a ha
  have honce := c.adaptations_le a.task.execution
  refine ⟨⟨T, hT, habout, hdue⟩, List.countP_pos_iff.2 ⟨T, hT, habout⟩, ?_⟩
  omega

/-- In every run in which the tickets do not run out and no name comes twice (`stamps_nodup`), every
attempt is timed, also of executions that are over. A timer may go off at any time, also too early
or long after it is due, and the run may go on after a shutdown. -/
theorem flights_timed (settings : Settings) (past : List (Moment × Event)) (timers : List Timer)
    (hrun : Ticking settings past timers) (hd : dispatches settings past < Word.top)
    (hn : (stamps past).Nodup) : Timed (present past) timers (after settings past) :=
  (after_covered settings hrun hd hn).timed

/-- Two workers take the two tasks of an execution at the time 10. The first is done at 30, so the
second task gets a shorter timeout and another timer, and a merge is sent. Then the timer about the
first task goes off, and too early the new one about the second. -/
def tickingRun : List (Moment × Event) :=
  [(⟨"7", 50⟩, .probeTimeout ⟨"execution7-2-task2"⟩ 2),
    (⟨"7", 40⟩, .probeTimeout ⟨"execution7-2-task1"⟩ 1),
    (⟨"7", 30⟩, .taskFinished ⟨"w1"⟩ ⟨"execution7-2-task1"⟩ 20 none none),
    (⟨"7", 10⟩, .createExecution ⟨⟨"session7-1"⟩, none, 2, none⟩),
    (⟨"7", 0⟩, .createSession ⟨none, [], "p", "f"⟩),
    (⟨"7", 0⟩, .pong ⟨⟨"w2"⟩, [], []⟩),
    (⟨"7", 0⟩, .pong ⟨⟨"w1"⟩, [], []⟩),
    (⟨"7", 0⟩, .instancesListed (.ok [worker "w1", worker "w2"]))]
where
  worker (name : String) : Worker := ⟨⟨name⟩, "10.0.0.1", 5000, 9000⟩

/-- What is set after `tickingRun`: two timers about the second task, one about the merge. -/
def tickingTimers : List Timer :=
  [⟨1010, ⟨"execution7-2-task2"⟩, 2⟩, ⟨300030, ⟨"execution7-2-task3"⟩, 3⟩,
    ⟨300010, ⟨"execution7-2-task2"⟩, 2⟩]

theorem ticking_tickingRun : Ticking sampleSettings tickingRun tickingTimers := by
  let first : Timer := ⟨300010, ⟨"execution7-2-task1"⟩, 1⟩
  let second : Timer := ⟨300010, ⟨"execution7-2-task2"⟩, 2⟩
  let adjusted : Timer := ⟨1010, ⟨"execution7-2-task2"⟩, 2⟩
  let merge : Timer := ⟨300030, ⟨"execution7-2-task3"⟩, 3⟩
  have hlisted : Ticking sampleSettings (tickingRun.drop 7) [] :=
    Ticking.start.heard (by decide) rfl rfl (by decide +kernel)
  have hfirst : Ticking sampleSettings (tickingRun.drop 6) [] :=
    hlisted.heard (by decide) rfl rfl (by decide +kernel)
  have hsecond : Ticking sampleSettings (tickingRun.drop 5) [] :=
    hfirst.heard (by decide) rfl rfl (by decide +kernel)
  have hsession : Ticking sampleSettings (tickingRun.drop 4) [] :=
    hsecond.heard (by decide) rfl rfl (by decide +kernel)
  have hbegun : Ticking sampleSettings (tickingRun.drop 3) [first, second] :=
    hsession.heard (by decide) rfl rfl (by decide +kernel)
  have hfinished : Ticking sampleSettings (tickingRun.drop 2) [adjusted, merge, first, second] :=
    hbegun.heard (by decide) rfl rfl (by decide +kernel)
  have hspent : Ticking sampleSettings (tickingRun.drop 1) [adjusted, merge, second] :=
    hfinished.ran (T := first) (by decide) (by decide) (by decide +kernel)
  exact hspent.ran (T := adjusted) (by decide) (by decide) (by decide +kernel)

theorem flights_timed_sample :
    Ticking sampleSettings tickingRun tickingTimers ∧
    Timed 50 tickingTimers (after sampleSettings tickingRun) ∧
    (after sampleSettings tickingRun).schedule.inFlight.values.map
      (fun a => (a.task.name, a.ticket, a.task.timeout)) =
        [(⟨"execution7-2-task2"⟩, 2, 1000), (⟨"execution7-2-task3"⟩, 3, 300000)] :=
  ⟨ticking_tickingRun,
    flights_timed sampleSettings tickingRun tickingTimers ticking_tickingRun (by decide +kernel)
      (stamps_nodup (by decide)),
    by decide +kernel⟩

end Coordinator
end RenderFarm
