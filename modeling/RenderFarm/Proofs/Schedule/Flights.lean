import RenderFarm.Proofs.Fleet
import RenderFarm.Proofs.Schedule

/-!
# RenderFarm.Proofs.Schedule.Flights

What is on its way, seen without what may change on the way. A task can get a new timeout while it
waits or runs, and a producing task a nearer source when it is given to a worker; the rest is its
gist.

* `queue`, `flights`: the waiting tasks and the assignments, by gist.
* `Steady s s'`: the workers and the assignments are left alone.
* `Dealt ts s f as p`: a dispatch pass makes the assignments `as`; `dealt_dispatch` says so of every
  pass, also of one that finds no ticket. `deal now ts s f`: the assignments of a pass.
-/

namespace RenderFarm

/-- A task without its timeout and without the source of its resources. -/
def Task.gist (t : Task) : Task :=
  { t with
    timeout := 0
    work := match t.work with
      | .produce seed _ => .produce seed .nothing
      | .reduce inputs => .reduce inputs }

def Assignment.gist (a : Assignment) : Assignment := { a with task := a.task.gist }

@[simp] theorem Task.tag_gist (t : Task) : t.gist.tag = t.tag := rfl

theorem Task.work_gist {t : Task} {inputs : List PartialResult} :
    t.gist.work = .reduce inputs ↔ t.work = .reduce inputs := by
  obtain ⟨_, _, _, work, _⟩ := t
  cases work <;> simp [gist]

namespace Schedule

def queue (s : Schedule) : List Task := s.pending.map Task.gist

theorem tags_queue (s : Schedule) : s.queue.map Task.tag = s.waiting := by
  simp [queue, waiting]

def flights (s : Schedule) : OrderedMap TaskName Assignment :=
  s.inFlight.mapValues fun _ a => a.gist

theorem gist_retimed (x : ExecutionName) (timeout : Nat) (t : Task) :
    (retimed x timeout t).gist = t.gist := by
  unfold retimed
  split <;> rfl

theorem gist_withAffinity (t : Task) (f : Fleet) : (withAffinity t f).1.gist = t.gist := by
  unfold withAffinity
  split
  · rename_i hw
    split
    · simp [Task.gist, hw]
    · rfl
  · rfl

theorem members_withAffinity (t : Task) (f : Fleet) :
    (withAffinity t f).2.members = f.members := by
  unfold withAffinity
  split
  · have h := Fleet.members_takeCached f t.session
    split <;> rename_i heq <;> rw [heq] at h <;> exact h
  · rfl

/-! ## Changes of the queue -/

structure Steady (s s' : Schedule) : Prop where
  idle : s'.idle = s.idle
  busy : s'.busy = s.busy
  tickets : s'.tickets = s.tickets
  flights : s'.flights = s.flights

theorem Steady.refl (s : Schedule) : Steady s s := ⟨rfl, rfl, rfl, rfl⟩

theorem Steady.trans {s₁ s₂ s₃ : Schedule} (h : Steady s₁ s₂) (h' : Steady s₂ s₃) :
    Steady s₁ s₃ :=
  ⟨h'.idle.trans h.idle, h'.busy.trans h.busy, h'.tickets.trans h.tickets,
    h'.flights.trans h.flights⟩

theorem find?_of_flights {s s' : Schedule} (h : s'.flights = s.flights) {n : TaskName}
    {a : Assignment} (ha : s'.inFlight.find? n = some a) :
    ∃ b, s.inFlight.find? n = some b ∧ b.task.gist = a.task.gist ∧ b.worker = a.worker ∧
      b.ticket = a.ticket := by
  have hn := congrArg (fun m => m.find? n) h
  simp only [Schedule.flights, OrderedMap.find?_mapValues, ha, Option.map_some] at hn
  obtain ⟨b, hb, hgist⟩ := Option.map_eq_some_iff.1 hn.symm
  obtain ⟨htask, hworker, hticket, _⟩ := Assignment.mk.inj hgist
  exact ⟨b, hb, htask, hworker, hticket⟩

theorem Steady.running {s s' : Schedule} (h : Steady s s') : s'.running = s.running := by
  have hv := congrArg (fun m => m.values.map fun a => a.task.tag) h.flights
  simpa [Schedule.running, Schedule.flights, OrderedMap.values, OrderedMap.mapValues,
    Assignment.gist, Function.comp_def] using hv

theorem Steady.keyed {s s' : Schedule} (h : Steady s s') (hk : s.Keyed) : s'.Keyed := by
  intro n a ha
  obtain ⟨b, hb, hgist, _⟩ := find?_of_flights h.flights (OrderedMap.mem_entries_iff.1 ha)
  have htag := congrArg Task.tag hgist
  rw [Task.tag_gist, Task.tag_gist] at htag
  exact (congrArg Prod.snd htag).symm.trans (hk n b (OrderedMap.mem_entries_iff.2 hb))

theorem steady_enqueue (s : Schedule) (t : Task) : Steady s (s.enqueue t) := by
  unfold enqueue
  split <;> exact ⟨rfl, rfl, rfl, rfl⟩

theorem queue_enqueue (s : Schedule) (t : Task) :
    (s.enqueue t).queue.Perm (s.queue ++ [t.gist]) := by
  unfold enqueue
  split
  · simpa [queue] using (insertBeforeProducing_perm t s.pending).map Task.gist
  · simp [queue]

theorem steady_dropExecution (s : Schedule) (x : ExecutionName) :
    Steady s (s.dropExecution x).1 :=
  ⟨rfl, rfl, rfl, rfl⟩

theorem queue_dropExecution (s : Schedule) (x : ExecutionName) :
    (s.dropExecution x).1.queue.Sublist s.queue :=
  List.filter_sublist.map _

theorem steady_retime (s : Schedule) (x : ExecutionName) (timeout now : Nat) :
    Steady s (s.retime x timeout now).1 := by
  refine ⟨rfl, rfl, rfl, ?_⟩
  simp [retime, flights, OrderedMap.mapValues, Assignment.gist, gist_retimed, Function.comp_def]

theorem queue_retime (s : Schedule) (x : ExecutionName) (timeout now : Nat) :
    (s.retime x timeout now).1.queue = s.queue := by
  simp [retime, queue, gist_retimed, Function.comp_def]

/-! ## Dispatch passes -/

/-- The tasks `ts` wait for a dispatch pass, and it makes the assignments `as`, with consecutive
tickets. `all`: none is left that could be made, if there are tickets for so many. -/
structure Dealt (ts : List Task) (s : Schedule) (f : Fleet) (as : List Assignment) (p : Pass) :
    Prop where
  tasks : (as.map (fun a => a.task.gist) ++ p.schedule.queue).Sublist (ts.map Task.gist)
  workers : (as.map Assignment.worker ++ p.schedule.idle).Sublist s.idle
  tickets : as.map Assignment.ticket = List.range' s.nextTicket as.length
  next : p.schedule.nextTicket = s.nextTicket + as.length
  inFlight : p.schedule.inFlight = as.foldl (fun m a => m.insert a.task.name a) s.inFlight
  busy : p.schedule.busy = as.foldl (fun m a => m.insert a.worker a.task.kind) s.busy
  members : p.fleet.members = f.members
  made : ∀ a ∈ p.assignments.getD [], a ∈ as
  all : s.nextTicket + min ts.length s.idle.length ≤ Word.top →
    p.assignments = some as ∧ as.length = min ts.length s.idle.length ∧
      as.map Assignment.worker ++ p.schedule.idle = s.idle

theorem next?_cases (s : Schedule) :
    (s.tickets.next? = none ∧ Word.top ≤ s.nextTicket) ∨
    s.tickets.next? = some (s.nextTicket, ⟨s.nextTicket + 1⟩) := by
  by_cases h : s.nextTicket < Word.top
  · exact .inr (next?_eq h)
  · have hs : ¬ s.tickets.upcoming + 1 < Word.size := fun hs => h (Nat.lt_of_succ_lt_succ hs)
    refine .inl ⟨?_, Nat.le_of_not_lt h⟩
    simp [TicketSource.next?, TicketSource.successor?, hs]

/-- One more task is taken to a worker, before all that the pass goes on to. -/
theorem Dealt.give {t t' : Task} {ts : List Task} {s : Schedule} {f f' : Fleet} {w : WorkerName}
    {ws : List WorkerName} {now : Nat} {as : List Assignment} {p : Pass} (hidle : s.idle = w :: ws)
    (hgist : t'.gist = t.gist) (hmembers : f'.members = f.members)
    (h : Dealt ts ({ s with idle := ws, tickets := ⟨s.nextTicket + 1⟩ }.assign t' w s.nextTicket
      now).1 f' as p) :
    Dealt (t :: ts) s f (⟨t', w, s.nextTicket, now⟩ :: as)
      { p with assignments := p.assignments.map (⟨t', w, s.nextTicket, now⟩ :: ·) } := by
  refine ⟨?_, ?_, ?_, ?_, h.inFlight, h.busy, h.members.trans hmembers, fun b hb => ?_,
    fun hroom => ?_⟩
  · simp only [List.map_cons, List.cons_append, hgist]
    exact h.tasks.cons_cons _
  · rw [hidle]
    exact h.workers.cons_cons w
  · exact congrArg (s.nextTicket :: ·) h.tickets
  · refine h.next.trans ?_
    show s.nextTicket + 1 + as.length = s.nextTicket + (as.length + 1)
    omega
  · cases hrest : p.assignments with
    | none => simp [hrest] at hb
    | some bs =>
      have hmade := h.made
      rw [hrest] at hmade
      simp only [hrest, Option.map_some, Option.getD_some, List.mem_cons] at hb
      rcases hb with rfl | hb
      · exact List.mem_cons_self
      · exact List.mem_cons_of_mem _ (hmade b hb)
  · simp only [hidle, List.length_cons, Nat.add_min_add_right] at hroom ⊢
    obtain ⟨hmade, hlen, hws⟩ := h.all (by
      show s.nextTicket + 1 + min ts.length ws.length ≤ Word.top
      omega)
    refine ⟨?_, ?_, ?_⟩
    · rw [hmade]
      rfl
    · rw [hlen]
      rfl
    · exact congrArg (w :: ·) hws

/-- The assignments that a pass makes, in their order. The caller gets them unless the pass fails. -/
def deal (now : Nat) : List Task → Schedule → Fleet → List Assignment
  | [], _, _ => []
  | t :: ts, s, f =>
    match s.idle, s.tickets.next? with
    | w :: ws, some (ticket, tickets) =>
      let (t, f) := withAffinity t f
      let (s, a) := { s with idle := ws, tickets }.assign t w ticket now
      a :: deal now ts s f
    | _, _ => []

theorem dealt_dispatchAll (now : Nat) (ts : List Task) (s : Schedule) (f : Fleet) :
    Dealt ts s f (deal now ts s f) (dispatchAll now ts s f) := by
  induction ts generalizing s f with
  | nil =>
    simp only [dispatchAll, deal]
    exact ⟨.refl _, .refl _, rfl, rfl, rfl, rfl, rfl, by simp, by simp⟩
  | cons t ts ih =>
    cases hidle : s.idle with
    | nil =>
      simp only [dispatchAll, deal, hidle]
      exact ⟨.refl _, by simp [hidle], rfl, rfl, rfl, rfl, rfl, by simp, by simp [hidle]⟩
    | cons w ws =>
      have hmembers := members_withAffinity t f
      rcases next?_cases s with ⟨hnone, htop⟩ | hsome
      · -- no ticket is left, and the task and the worker in hand are dropped
        simp only [dispatchAll, deal, hidle, hnone]
        refine ⟨?_, ?_, rfl, rfl, rfl, rfl, hmembers, by simp, fun hroom => ?_⟩
        · exact List.sublist_cons_self _ _
        · simp [hidle]
        · simp only [hidle, List.length_cons, Nat.add_min_add_right] at hroom
          omega
      · simp only [dispatchAll, deal, hidle, hsome]
        exact (ih _ _).give hidle (gist_withAffinity t f) hmembers

theorem dealt_dispatch (s : Schedule) (f : Fleet) (now : Nat) :
    ∃ as, Dealt s.pending s f as (s.dispatch f now) :=
  ⟨_, dealt_dispatchAll now s.pending s f⟩

theorem pending_dispatchAll (now : Nat) (ts : List Task) (s : Schedule) (f : Fleet)
    (hroom : s.nextTicket + min ts.length s.idle.length ≤ Word.top) :
    (dispatchAll now ts s f).schedule.pending = ts.drop s.idle.length := by
  induction ts generalizing s f with
  | nil => simp [dispatchAll]
  | cons t ts ih =>
    cases hidle : s.idle with
    | nil => simp [dispatchAll, hidle]
    | cons w ws =>
      rw [hidle] at hroom
      simp only [List.length_cons, Nat.add_min_add_right] at hroom
      have hticket : s.nextTicket < Word.top := by omega
      simp only [dispatchAll, hidle, next?_eq hticket, List.length_cons, List.drop_succ_cons]
      refine ih _ _ ?_
      show s.nextTicket + 1 + min ts.length ws.length ≤ Word.top
      omega

/-- A pass takes tasks from the front of the queue, one for each idle worker. -/
theorem pending_dispatch {s : Schedule}
    (hroom : s.nextTicket + min s.pending.length s.idle.length ≤ Word.top) (f : Fleet) (now : Nat) :
    (s.dispatch f now).schedule.pending = s.pending.drop s.idle.length :=
  pending_dispatchAll now s.pending s f hroom

end Schedule
end RenderFarm
