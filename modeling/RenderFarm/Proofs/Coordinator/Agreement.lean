import RenderFarm.Proofs.Coordinator.Reactions
import RenderFarm.Proofs.Name

/-!
# RenderFarm.Proofs.Coordinator.Agreement

In every run of the coordinator, each execution waits for exactly those tasks that the schedule has
for it.

* `after`: the coordinator after a list of events, the latest event first.
* `dispatches`: the tasks that a run tried to give to workers, one ticket for each.
* `stamps`: the clock and the number that went into each name that was asked for.
* `tasks_agree`: the agreement, for every run in which the tickets do not run out and no name is
  given twice.
-/

namespace RenderFarm
namespace Coordinator

/-- The coordinator after the events, whatever sums they lead to; the latest event comes first.
`after?_eq_some` says that the runs that the program gets through are among these. -/
def after (settings : Settings) : List (Moment × Event) → Coordinator
  | [] => (start settings).coordinator
  | (m, event) :: past => ((after settings past).handle m event).coordinator

/-- The tasks that the handling of an event tries to give to idle workers. -/
def due (c : Coordinator) (m : Moment) (event : Event) : Nat :=
  let o := c.react m event
  if o.wakes then min o.coordinator.schedule.pending.length o.coordinator.schedule.idle.length
  else 0

def dispatches (settings : Settings) : List (Moment × Event) → Nat
  | [] => 0
  | (m, event) :: past => dispatches settings past + (after settings past).due m event

/-- The clock and the sequence number of every name that was asked for. A word holds the number, so
after as many names as there are words only the clock keeps a name from being the same. -/
def stamps : List (Moment × Event) → List (String × Nat)
  | [] => []
  | (m, event) :: past =>
    if event.asksName then (m.wallClock, ((stamps past).length + 1) % Word.size) :: stamps past
    else stamps past

/-- The tasks of the execution that wait for a worker. -/
def waitingOf (c : Coordinator) (x : ExecutionName) : List TaskName :=
  (c.schedule.pending.filter fun t => t.execution = x).map Task.name

/-- The tasks of the execution that are on a worker. -/
def runningOf (c : Coordinator) (x : ExecutionName) : List TaskName :=
  (c.schedule.inFlight.values.filter fun a => a.task.execution = x).map fun a => a.task.name

/-- The executions and the schedule are in step: an execution waits for the tasks that are scheduled
for it, each of which is once in the queue or once on a worker. -/
structure InStep (c : Coordinator) : Prop where
  tasks : ∀ x e, c.executions.find? x = some e → e.isTerminal = false →
    (c.waitingOf x ++ c.runningOf x).Perm e.outstanding
  once : ∀ x, (c.waitingOf x ++ c.runningOf x).Nodup
  dropped : ∀ x e, c.executions.find? x = some e → e.isTerminal = true → c.waitingOf x = []
  waits : ∀ t ∈ c.schedule.pending, ∃ e, c.executions.find? t.execution = some e
  runs : ∀ n a, c.schedule.inFlight.find? n = some a →
    a.task.name = n ∧ ∃ e, c.executions.find? a.task.execution = some e

/-! ## Dispatch -/

section Dispatch

variable {c : Coordinator}

/-- The name of a task tells its execution, so tasks that are apart have names that are. -/
theorem Known.names {tags : List Tag} (hk : Known tags c) (hn : tags.Nodup) :
    (tags.map Prod.snd).Nodup := by
  refine List.pairwise_map.2 (hn.imp_of_mem fun {g g'} hg hg' hne heq => ?_)
  obtain ⟨x, n⟩ := g
  obtain ⟨y, n'⟩ := g'
  cases heq
  obtain ⟨_, _, k, _, hk₁⟩ := hk x n hg
  obtain ⟨_, _, k', _, hk₂⟩ := hk y n hg'
  obtain ⟨rfl, _⟩ := TaskName.ofExecution_inj.1 (hk₁.symm.trans hk₂)
  exact hne rfl

theorem scheduled_names (h : Agrees [] c) : (c.scheduled.map Prod.snd).Nodup := by
  have hn := h.known.names h.nodup
  rwa [List.append_nil] at hn

theorem dispatch_agrees (h : Agrees [] c) (now : Nat)
    (ht : c.schedule.nextTicket + min c.schedule.pending.length c.schedule.idle.length
      ≤ Word.top) :
    Agrees [] (dispatch now c).coordinator ∧
    (dispatch now c).coordinator.schedule.nextTicket = c.schedule.nextTicket
      + min c.schedule.pending.length c.schedule.idle.length := by
  have hd := Schedule.deals_dispatch h.keyed (scheduled_names h) ht c.fleet now
  obtain ⟨dealt, hwait, hrun⟩ := hd.moved
  refine ⟨h.congr (fun _ => rfl) hd.keyed (fun g hg => ?_) ?_, hd.tickets⟩
  · show g ∈ c.schedule.pending.map Task.tag
    rw [hwait]
    exact List.mem_append_right _ hg
  · have hw : c.schedule.waiting = dealt ++ (c.schedule.dispatch c.fleet now).schedule.waiting :=
      hwait
    rw [List.perm_iff_count] at hrun ⊢
    intro g
    have := hrun g
    simp only [scheduled, dispatch, hw, List.count_append, List.count_nil] at *
    omega

end Dispatch

/-! ## Names -/

/-- The name of an execution with the stamp. -/
def stampedName (stamp : String × Nat) : ExecutionName :=
  ⟨"execution" ++ stamp.1 ++ "-" ++ toString stamp.2⟩

theorem stamp_inj {kind : String} {s t : String × Nat}
    (htext : kind ++ s.1 ++ "-" ++ toString s.2 = kind ++ t.1 ++ "-" ++ toString t.2) : s = t := by
  obtain ⟨p, i⟩ := s
  obtain ⟨q, j⟩ := t
  have hi : EndsIn (kind ++ p ++ "-" ++ toString i) i := ⟨_, rfl⟩
  have hj : EndsIn (kind ++ p ++ "-" ++ toString i) j := htext ▸ ⟨_, rfl⟩
  have hij := hi.number_eq hj
  subst hij
  have hlist := congrArg String.toList htext
  simp only [String.toList_append, List.append_cancel_right_eq, List.append_cancel_left_eq] at hlist
  rw [String.toList_inj.1 hlist]

theorem stampedName_inj {s t : String × Nat} (h : stampedName s = stampedName t) : s = t :=
  stamp_inj (congrArg ExecutionName.text h)

/-- No stamp comes twice in a run that asks for fewer names than there are words. -/
theorem stamps_nodup {past : List (Moment × Event)} (hlt : (stamps past).length < Word.size) :
    (stamps past).Nodup := by
  -- the numbers go up: all that were given are at most as large as there are stamps
  have hbelow : (stamps past).Nodup ∧ ∀ s ∈ stamps past, s.2 ≤ (stamps past).length := by
    induction past with
    | nil => exact ⟨List.nodup_nil, by simp [stamps]⟩
    | cons p past ih =>
      obtain ⟨m, event⟩ := p
      simp only [stamps] at hlt ⊢
      split
      · rename_i hev
        simp only [hev, if_true, List.length_cons] at hlt
        obtain ⟨hn, hle⟩ := ih (by omega)
        rw [Nat.mod_eq_of_lt hlt]
        refine ⟨List.nodup_cons.2 ⟨fun hs => ?_, hn⟩, fun s hs => ?_⟩
        · have := hle _ hs
          simp only at this
          omega
        · rcases List.mem_cons.1 hs with rfl | hs
          · exact Nat.le_refl _
          · exact Nat.le_succ_of_le (hle s hs)
      · rename_i hev
        exact ih (by simpa [hev] using hlt)
  exact hbelow.1

/-- What the names of the executions are after a run. -/
structure Named (past : List (Moment × Event)) (c : Coordinator) : Prop where
  issued : c.names.issued = (stamps past).length % Word.size
  executions : ∀ x ∈ c.executions.keys, ∃ s ∈ stamps past, x = stampedName s

theorem Named.upcoming {past : List (Moment × Event)} {c : Coordinator} (h : Named past c)
    (m : Moment) :
    c.upcomingName m = stampedName (m.wallClock, ((stamps past).length + 1) % Word.size) := by
  have hn : (c.names.issued + 1) % Word.size = ((stamps past).length + 1) % Word.size := by
    rw [h.issued, Nat.mod_add_mod]
  simp only [upcomingName, NameSource.next, hn, stampedName]

/-! ## Runs -/

theorem start_agrees (settings : Settings) : Agrees [] (start settings).coordinator := by
  refine ⟨?_, List.nodup_nil, ?_, ?_, ?_, ?_⟩
  · intro n a ha
    cases ha
  · intro x e he
    cases he
  · intro x n hn
    cases hn
  · intro x e he
    cases he
  · intro x e he
    cases he

/-- The name that a request gets is new if its stamp is. -/
theorem Named.fresh {m : Moment} {event : Event} {past : List (Moment × Event)} {c : Coordinator}
    (h : Named past c) (hn : (stamps ((m, event) :: past)).Nodup) (hev : event.asksName = true) :
    c.upcomingName m ∉ c.executions.keys := by
  intro hx
  obtain ⟨s, hs, heq⟩ := h.executions _ hx
  rw [h.upcoming] at heq
  simp only [stamps, hev, if_true, List.nodup_cons] at hn
  exact hn.1 (stampedName_inj heq ▸ hs)

theorem Reacted.named {m : Moment} {event : Event} {past : List (Moment × Event)}
    {c c' : Coordinator} (hr : Reacted m event c c') (h : Named past c) :
    Named ((m, event) :: past) c' := by
  cases hev : event.asksName with
  | false =>
    refine ⟨?_, fun x hx => ?_⟩
    · rw [hr.names, hev, h.issued]
      simp [stamps, hev]
    · rcases hr.executions x hx with hx | ⟨hask, _⟩
      · simpa [stamps, hev] using h.executions x hx
      · simp [hev] at hask
  | true =>
    refine ⟨?_, fun x hx => ?_⟩
    · rw [hr.names, hev, h.issued, if_pos rfl, Nat.mod_add_mod]
      simp [stamps, hev]
    · simp only [stamps, hev, if_true, List.mem_cons]
      rcases hr.executions x hx with hx | ⟨_, hx⟩
      · obtain ⟨s, hs, heq⟩ := h.executions x hx
        exact ⟨s, .inr hs, heq⟩
      · exact ⟨_, .inl rfl, hx.trans (h.upcoming m)⟩

theorem stamps_tail {m : Moment} {event : Event} {past : List (Moment × Event)}
    (hn : (stamps ((m, event) :: past)).Nodup) : (stamps past).Nodup := by
  simp only [stamps] at hn
  split at hn
  · exact (List.nodup_cons.1 hn).2
  · exact hn

theorem stamps_earlier {later earlier : List (Moment × Event)}
    (hn : (stamps (later ++ earlier)).Nodup) : (stamps earlier).Nodup := by
  induction later with
  | nil => exact hn
  | cons p later ih => exact ih (stamps_tail hn)

theorem after_agrees (settings : Settings) {past : List (Moment × Event)}
    (hd : dispatches settings past < Word.top) (hn : (stamps past).Nodup) :
    Agrees [] (after settings past) ∧
    (after settings past).schedule.nextTicket = 1 + dispatches settings past ∧
    Named past (after settings past) := by
  induction past with
  | nil =>
    refine ⟨start_agrees settings, rfl, rfl, ?_⟩
    intro x hx
    cases hx
  | cons p past ih =>
    obtain ⟨m, event⟩ := p
    have hsum : dispatches settings ((m, event) :: past)
      = dispatches settings past + (after settings past).due m event := rfl
    obtain ⟨hagrees, htickets, hnamed⟩ := ih (by omega) (stamps_tail hn)
    have hr := react_agrees hagrees m event (hnamed.fresh hn)
    have hnamed' := hr.named hnamed
    cases hwakes : ((after settings past).react m event).wakes with
    | false =>
      have hdue : (after settings past).due m event = 0 := by simp [due, hwakes]
      have hsame : after settings ((m, event) :: past)
          = ((after settings past).react m event).coordinator := by simp [after, handle, hwakes]
      rw [hsame, hsum, hdue, hr.tickets]
      exact ⟨hr.agrees, htickets, hnamed'⟩
    | true =>
      let c₁ := ((after settings past).react m event).coordinator
      have hdue : (after settings past).due m event
          = min c₁.schedule.pending.length c₁.schedule.idle.length := by simp [due, hwakes, c₁]
      have hpass : after settings ((m, event) :: past) = (dispatch m.now c₁).coordinator := by
        simp [after, handle, hwakes, c₁]
      have hroom : c₁.schedule.nextTicket + min c₁.schedule.pending.length c₁.schedule.idle.length
          ≤ Word.top := by
        rw [hr.tickets, htickets, ← hdue]
        omega
      obtain ⟨hagrees', htickets'⟩ := dispatch_agrees hr.agrees m.now hroom
      rw [hpass, hsum, htickets', hr.tickets, htickets, hdue]
      exact ⟨hagrees', Nat.add_assoc _ _ _, hnamed'.issued, hnamed'.executions⟩

/-- What a dispatch pass finds after the reaction to the last event of a run. -/
theorem reacted_agrees (settings : Settings) {m : Moment} {event : Event}
    {past : List (Moment × Event)} (hd : dispatches settings ((m, event) :: past) < Word.top)
    (hn : (stamps ((m, event) :: past)).Nodup) :
    let o := (after settings past).react m event
    Agrees [] o.coordinator ∧ (o.wakes = true → o.coordinator.schedule.nextTicket +
      min o.coordinator.schedule.pending.length o.coordinator.schedule.idle.length ≤ Word.top) := by
  have hsum : dispatches settings ((m, event) :: past)
    = dispatches settings past + (after settings past).due m event := rfl
  obtain ⟨hagrees, htickets, hnamed⟩ := after_agrees settings (by omega) (stamps_tail hn)
  have hr := react_agrees hagrees m event (hnamed.fresh hn)
  refine ⟨hr.agrees, fun hwakes => ?_⟩
  simp only [due, hwakes, if_true] at hsum
  rw [hr.tickets, htickets]
  omega

/-! ## The agreement -/

theorem mem_waitingOf {c : Coordinator} {x : ExecutionName} {n : TaskName} :
    n ∈ c.waitingOf x ↔ (x, n) ∈ c.schedule.waiting := by
  simp [waitingOf, Schedule.waiting, Task.tag, and_assoc, and_comm, and_left_comm]

theorem waitingOf_append_runningOf (c : Coordinator) (x : ExecutionName) :
    c.waitingOf x ++ c.runningOf x = (c.scheduled.filter fun g => g.1 = x).map Prod.snd := by
  simp only [waitingOf, runningOf, scheduled, Schedule.waiting, Schedule.running,
    List.filter_append, List.map_append, List.filter_map, List.map_map]
  rfl

theorem Agrees.inStep {c : Coordinator} (h : Agrees [] c) : InStep c := by
  have hmem : ∀ x n, n ∈ c.waitingOf x ++ c.runningOf x ↔ (x, n) ∈ c.scheduled ++ [] := by
    intro x n
    rw [waitingOf_append_runningOf, List.append_nil]
    simp
  have honce : ∀ x, (c.waitingOf x ++ c.runningOf x).Nodup := by
    intro x
    rw [waitingOf_append_runningOf]
    exact (scheduled_names h).sublist (List.filter_sublist.map _)
  have hknown : ∀ t : Task, t.tag ∈ c.scheduled →
      ∃ e, c.executions.find? t.execution = some e := by
    intro t ht
    obtain ⟨e, he, _⟩ := h.known t.execution t.name (List.mem_append_left _ ht)
    exact ⟨e, he⟩
  refine ⟨fun x e he ht => ?_, honce, fun x e he ht => ?_, fun t ht => ?_, fun n a ha => ?_⟩
  · refine (List.perm_ext_iff_of_nodup (honce x) (h.sound x e he).2.nodup).2 fun n => ?_
    rw [hmem, h.agree x e he ht]
  · refine List.eq_nil_iff_forall_not_mem.2 fun n hn => ?_
    exact h.dropped x e he ht n (mem_waitingOf.1 hn)
  · exact hknown t (List.mem_append_left _ (List.mem_map_of_mem ht))
  · refine ⟨h.keyed n a (OrderedMap.mem_entries_iff.2 ha), hknown a.task ?_⟩
    exact List.mem_append_right _
      (List.mem_map_of_mem (OrderedMap.mem_values_iff.2 ⟨n, ha⟩) (f := fun a => a.task.tag))

/-- No task is lost or duplicated between the executions and the schedule, as long as there are
tickets and no name comes twice. No name does if fewer are asked for than there are words, whatever
the clock shows (`stamps_nodup`); with more, it takes a clock that comes back to the same text. -/
theorem tasks_agree (settings : Settings) (past : List (Moment × Event))
    (hd : dispatches settings past < Word.top) (hn : (stamps past).Nodup) :
    InStep (after settings past) :=
  (after_agrees settings hd hn).1.inStep

/-- One worker and one execution of three units, of which the first has been reported twice. -/
def sampleRun : List (Moment × Event) :=
  [finished, finished, createExecution, createSession, pong, listed].map fun e => (⟨"7", 0⟩, e)
where
  listed : Event := .instancesListed (.ok [⟨⟨"w"⟩, "10.0.0.1", 5000, 9000⟩])
  pong : Event := .pong ⟨⟨"w"⟩, [], []⟩
  createSession : Event := .createSession ⟨none, [], "p", "f"⟩
  createExecution : Event := .createExecution ⟨⟨"session7-1"⟩, none, 3, none⟩
  finished : Event := .taskFinished ⟨"w"⟩ ⟨"execution7-2-task1"⟩ 20 none none

def sampleSettings : Settings where
  listenHost := "0.0.0.0"
  listenPort := 5000
  externalHost := "127.0.0.1"
  externalPort := none
  manageInterval := 15000
  waitingPongTimeout := 4
  destroyZombies := true
  prioritizeReducing := true
  taskTimeout := 300000
  taskMinTimeout := 1000
  reducingMaxRetries := 3
  producingFailRatio := 0.1

theorem tasks_agree_sample :
    InStep (after sampleSettings sampleRun) ∧
    (after sampleSettings sampleRun).waitingOf ⟨"execution7-2"⟩
      = [⟨"execution7-2-task2"⟩, ⟨"execution7-2-task3"⟩] ∧
    (after sampleSettings sampleRun).runningOf ⟨"execution7-2"⟩ = [⟨"execution7-2-task4"⟩] :=
  ⟨tasks_agree sampleSettings sampleRun (by decide +kernel) (stamps_nodup (by decide)),
    by decide +kernel, by decide +kernel⟩

end Coordinator
end RenderFarm
