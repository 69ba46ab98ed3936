import RenderFarm.Proofs.Schedule.Lines
import RenderFarm.Proofs.Schedule.Pool

/-!
# RenderFarm.Proofs.Schedule.Exhaustion

A dispatch pass takes a task and a worker in hand before it asks for a ticket. If there is none, the
pass fails with both in hand.

* `NothingLost s p`: what waited waits, or runs and the caller is told, and likewise the workers.
* `RunsOut s p as t w`: the pass has made the assignments `as` and tells nobody; the task `t` and
  the worker `w` were in hand.
* `untold_iff`: a pass fails if there are fewer tickets than tasks with a worker.
* `nothing_lost_iff_told`: a pass that fails has lost something, and no other has.
-/

namespace RenderFarm
namespace Schedule

/-- No task and no worker is lost: what waited waits, or runs and the caller is told of it; who was
idle is idle, or busy with such a task; and whatever ran before still runs. -/
structure NothingLost (s : Schedule) (p : Pass) : Prop where
  waiting : ∀ t ∈ s.pending, t ∈ p.schedule.pending ∨
    ∃ a ∈ p.assignments.getD [], a.task.gist = t.gist ∧ p.schedule.inFlight.find? t.name = some a
  idle : ∀ w ∈ s.idle, w ∈ p.schedule.idle ∨
    ∃ a ∈ p.assignments.getD [], a.worker = w ∧ p.schedule.busy.find? w = some a.task.kind
  running : ∀ n a, s.inFlight.find? n = some a → p.schedule.inFlight.find? n = some a
  busy : ∀ w kind, s.busy.find? w = some kind → p.schedule.busy.find? w = some kind

/-- The last tickets are gone with the assignments `as`, which nobody is told of, and the task `t`
and the worker `w`, the next in turn, are neither where they were nor anywhere else. -/
structure RunsOut (s : Schedule) (p : Pass) (as : List Assignment) (t : Task) (w : WorkerName) :
    Prop where
  untold : p.assignments = none
  flights : p.schedule.inFlight.entries = s.inFlight.entries ++ as.map fun a => (a.task.name, a)
  tickets : as.map Assignment.ticket = List.range' s.nextTicket (Word.top - s.nextTicket)
  queue : s.queue = as.map (fun a => a.task.gist) ++ t.gist :: p.schedule.queue
  idle : s.idle = as.map Assignment.worker ++ w :: p.schedule.idle
  noTask : p.schedule.hasTask t.name = false
  noWorker : ¬ p.schedule.Enlisted w

variable {s : Schedule} {p : Pass} {f : Fleet} {now : Nat} {as : List Assignment} {ts : List Task}

/-! ## When a pass fails -/

/-- A pass gives up when there is no ticket for what it has in hand. -/
theorem top_le_of_untold (h : (dispatchAll now ts s f).assignments = none) :
    Word.top ≤ (dispatchAll now ts s f).schedule.nextTicket := by
  induction ts generalizing s f with
  | nil => cases h
  | cons t ts ih =>
    cases hidle : s.idle with
    | nil => simp [dispatchAll, hidle] at h
    | cons w ws =>
      rcases next?_cases s with ⟨hnone, htop⟩ | hsome
      · simp only [dispatchAll, hidle, hnone]
        exact htop
      · simp only [dispatchAll, hidle, hsome, Option.map_eq_none_iff] at h ⊢
        exact ih h

/-- A pass fails if there are fewer tickets than tasks with a worker. -/
theorem untold_iff (hle : s.nextTicket ≤ Word.top) :
    (s.dispatch f now).assignments = none ↔
      Word.top < s.nextTicket + min s.pending.length s.idle.length := by
  constructor
  · intro hnone
    obtain ⟨as, hd⟩ := dealt_dispatch s f now
    by_contra hroom
    cases hnone.symm.trans (hd.all (Nat.not_lt.1 hroom)).1
  · intro hmore
    by_contra htold
    have hroom := room_of_isSome hle (Option.isSome_iff_ne_none.2 htold)
    omega

/-! ## What a failed pass leaves -/

/-- The names of the tasks are distinct, so the one in hand is not found under its name. -/
theorem noTask_in_hand {t : Task} (h : Whole s) (hd : Dealt s.pending s f as p)
    (hqueue : s.queue = as.map (fun a => a.task.gist) ++ t.gist :: p.schedule.queue) :
    p.schedule.hasTask t.name = false := by
  have hwaiting : s.waiting.map Prod.snd =
      (as.map fun a => a.task.name) ++ t.name :: p.schedule.waiting.map Prod.snd := by
    rw [← tags_queue, ← tags_queue, hqueue]
    simp [Function.comp_def, Task.tag, Task.gist]
  have hkeys : p.schedule.inFlight.keys = s.inFlight.keys ++ as.map fun a => a.task.name := by
    simp [OrderedMap.keys, hd.entries h.keyed h.names, Function.comp_def]
  have hnodup := h.names
  rw [List.map_append, running_keys h.keyed, hwaiting, List.append_assoc, List.cons_append]
    at hnodup
  have hapart := (List.nodup_cons.1 (List.nodup_middle.1 hnodup)).1
  rw [hasTask_eq_false, hkeys]
  simp only [List.mem_append, not_or] at hapart ⊢
  exact ⟨hapart.2.1, hapart.2.2, hapart.1⟩

/-- A worker in hand was idle, and no worker is idle twice. -/
theorem noWorker_in_hand {w : WorkerName} (h : Whole s) (hd : Dealt s.pending s f as p)
    (hidle : s.idle = as.map Assignment.worker ++ w :: p.schedule.idle) :
    ¬ p.schedule.Enlisted w := by
  have hw : w ∈ s.idle := by
    rw [hidle]
    exact List.mem_append_right _ List.mem_cons_self
  have hnodup := h.manned.idle_nodup
  rw [hidle] at hnodup
  have hapart := (List.nodup_cons.1 (List.nodup_middle.1 hnodup)).1
  simp only [List.mem_append, not_or] at hapart
  rw [Enlisted, hd.busy_keys, not_or, not_or]
  exact ⟨hapart.2, hapart.1, h.manned.apart w hw⟩

/-- A failed pass has used up the tickets, and has lost what it had in hand. -/
theorem runsOut (h : Whole s) (hnone : (s.dispatch f now).assignments = none) :
    ∃ t w, RunsOut s (s.dispatch f now) (deal now s.pending s f) t w := by
  have hserved : Served s.pending s _ (s.dispatch f now) := served_dispatchAll now s.pending s f
  have hdealt : Dealt s.pending s f _ (s.dispatch f now) := dealt_dispatchAll now s.pending s f
  have htop : Word.top ≤ (s.dispatch f now).schedule.nextTicket := top_le_of_untold hnone
  have hbelow : (s.dispatch f now).schedule.nextTicket ≤ Word.top :=
    nextTicket_dispatchAll_le now s.pending f h.tickets
  generalize deal now s.pending s f = as at *
  generalize s.dispatch f now = p at *
  rcases hserved.rest with ⟨hsome, -⟩ | ⟨-, hlen, hpending, hidle⟩
  · cases hnone.symm.trans hsome
  obtain ⟨hts, hws⟩ := Nat.lt_min.1 hlen
  have htasks : as.map (fun a => a.task.gist) = (s.pending.take as.length).map Task.gist := by
    have := congrArg (List.map Prod.fst) hserved.tasks
    simpa [Function.comp_def] using this
  have hqueue : s.queue =
      as.map (fun a => a.task.gist) ++ s.pending[as.length].gist :: p.schedule.queue := by
    rw [htasks, queue, queue, hpending, ← List.map_cons, ← List.drop_eq_getElem_cons hts,
      ← List.map_append, List.take_append_drop]
  have hworkers : s.idle =
      as.map Assignment.worker ++ s.idle[as.length] :: p.schedule.idle := by
    rw [hserved.workers, hidle, ← List.drop_eq_getElem_cons hws, List.take_append_drop]
  -- each assignment took a ticket, and the pass went on until there was none
  have hcount : as.length = Word.top - s.nextTicket := by
    have := hserved.next
    omega
  exact ⟨_, _, hnone, hdealt.entries h.keyed h.names, hcount ▸ hserved.tickets, hqueue, hworkers,
    noTask_in_hand h hdealt hqueue, noWorker_in_hand h hdealt hworkers⟩

/-- The caller of a failed pass hears of nothing, so what was in hand counts as lost. -/
theorem RunsOut.lost {t : Task} {w : WorkerName} (h : RunsOut s p as t w) :
    ¬ NothingLost s p := by
  intro hn
  have hw : w ∈ s.idle := by
    rw [h.idle]
    exact List.mem_append_right _ List.mem_cons_self
  rcases hn.idle w hw with hidle | ⟨a, ha, -⟩
  · exact h.noWorker (.inl hidle)
  · rw [h.untold] at ha
    cases ha

/-! ## What a pass leaves that does not fail -/

theorem nothingLost (h : Whole s) (htold : (s.dispatch f now).assignments ≠ none) :
    NothingLost s (s.dispatch f now) := by
  have hserved : Served s.pending s _ (s.dispatch f now) := served_dispatchAll now s.pending s f
  have hdealt : Dealt s.pending s f _ (s.dispatch f now) := dealt_dispatchAll now s.pending s f
  generalize deal now s.pending s f = as at *
  generalize s.dispatch f now = p at *
  have hflights := hdealt.entries h.keyed h.names
  have hposts := hdealt.posts h.manned
  rcases hserved.rest with ⟨hsome, -, hpending, hidle⟩ | ⟨hnone, -⟩
  case inr => exact absurd hnone htold
  -- names and workers are distinct, so no assignment takes the place of another
  refine ⟨fun t ht => ?_, fun w hw => ?_, fun n a ha => ?_, fun w kind hw => ?_⟩
  · rw [← List.take_append_drop as.length s.pending, ← hpending, List.mem_append] at ht
    refine ht.symm.imp_right fun ht => ?_
    have hmem : (t.gist, t.timeout) ∈ as.map fun a => (a.task.gist, a.task.timeout) := by
      rw [hserved.tasks]
      exact List.mem_map_of_mem ht
    obtain ⟨a, ha, heq⟩ := List.mem_map.1 hmem
    have hgist : a.task.gist = t.gist := congrArg Prod.fst heq
    have hname : a.task.name = t.name := by simpa [Task.gist] using congrArg Task.name hgist
    refine ⟨a, hsome ▸ ha, hgist, OrderedMap.mem_entries_iff.1 ?_⟩
    rw [hflights, ← hname]
    exact List.mem_append_right _ (List.mem_map_of_mem ha)
  · rw [← List.take_append_drop as.length s.idle, ← hidle, ← hserved.workers,
      List.mem_append] at hw
    refine hw.symm.imp_right fun hw => ?_
    obtain ⟨a, ha, rfl⟩ := List.mem_map.1 hw
    refine ⟨a, hsome ▸ ha, rfl, OrderedMap.mem_entries_iff.1 ?_⟩
    rw [hposts]
    exact List.mem_append_right _ (List.mem_map_of_mem ha)
  · rw [← OrderedMap.mem_entries_iff, hflights]
    exact List.mem_append_left _ (OrderedMap.mem_entries_iff.2 ha)
  · rw [← OrderedMap.mem_entries_iff, hposts]
    exact List.mem_append_left _ (OrderedMap.mem_entries_iff.2 hw)

/-- A pass loses something just if it fails, and it fails if there are fewer tickets than tasks with
a worker. Then the tasks before the one in hand have left too, and nobody is told. -/
theorem nothing_lost_iff_told (h : Whole s) (f : Fleet) (now : Nat) :
    ((s.dispatch f now).assignments = none ↔
      Word.top < s.nextTicket + min s.pending.length s.idle.length) ∧
    (NothingLost s (s.dispatch f now) ↔ (s.dispatch f now).assignments ≠ none) ∧
    ((s.dispatch f now).assignments = none →
      ∃ as t w, RunsOut s (s.dispatch f now) as t w) := by
  refine ⟨untold_iff h.tickets, ⟨fun hkept hnone => ?_, nothingLost h⟩, fun hnone => ?_⟩
  · obtain ⟨t, w, hout⟩ := runsOut h hnone
    exact hout.lost hkept
  · exact ⟨_, runsOut h hnone⟩

/-- The schedule does not depend on how many tickets it has given out. -/
theorem Whole.withTicket (h : Whole s) {n : Ticket} (hn : n ≤ Word.top) :
    Whole { s with tickets := ⟨n⟩ } :=
  ⟨⟨h.manned.idle_nodup, h.manned.apart, h.manned.held, h.manned.single⟩, h.posted, h.keyed,
    h.names, hn⟩

/-- Two tasks for two workers. -/
def sampleArrivals : List Operation :=
  [.syncWorkers [⟨"w1"⟩, ⟨"w2"⟩], .enqueue (unit "p1"), .enqueue (unit "p2")].reverse
where
  unit (n : String) : Task := ⟨⟨n⟩, ⟨"s"⟩, ⟨"x"⟩, .produce 0 .nothing, 50⟩

/-- They wait, and the given ticket is the next. -/
def upTo (n : Ticket) : Schedule := { after true sampleArrivals with tickets := ⟨n⟩ }

theorem whole_upTo {n : Ticket} (hn : n ≤ Word.top) : Whole (upTo n) :=
  (whole_of_distinct (by decide +kernel)).withTicket hn

/-- One ticket is left: the second task and the second worker are lost. -/
theorem nothing_lost_iff_told_last :
    let p := (upTo (Word.top - 1)).dispatch (.new 4) 0
    Whole (upTo (Word.top - 1)) ∧ p.assignments = none ∧
      ¬ NothingLost (upTo (Word.top - 1)) p ∧
      p.schedule.inFlight.keys = [⟨"p1"⟩] ∧ p.schedule.busy.keys = [⟨"w1"⟩] ∧
      p.schedule.pending = [] ∧ p.schedule.idle = [] := by
  have h : Whole (upTo (Word.top - 1)) := whole_upTo (by decide)
  obtain ⟨fails, kept, -⟩ := nothing_lost_iff_told h (.new 4) 0
  have hnone := fails.2 (by decide +kernel)
  exact ⟨h, hnone, fun hkept => kept.1 hkept hnone, by decide +kernel, by decide +kernel,
    by decide +kernel, by decide +kernel⟩

/-- No ticket is left: the pass fails, and its first task and its first worker are nowhere. -/
theorem ticketless_pass_loses :
    let p := (upTo Word.top).dispatch (.new 4) 0
    Whole (upTo Word.top) ∧ p.assignments = none ∧ ¬ NothingLost (upTo Word.top) p ∧
      p.schedule.hasTask ⟨"p1"⟩ = false ∧ p.schedule.workerState? ⟨"w1"⟩ = none := by
  refine ⟨whole_upTo (Nat.le_refl _), by decide +kernel, fun hkept => ?_, by decide +kernel,
    by decide +kernel⟩
  have hmem : (⟨"w1"⟩ : WorkerName) ∈ (upTo Word.top).idle := by decide +kernel
  rcases hkept.idle ⟨"w1"⟩ hmem with hidle | ⟨a, ha, -⟩
  · exact absurd hidle (by decide +kernel)
  · have hnone : ((upTo Word.top).dispatch (.new 4) 0).assignments = none := by decide +kernel
    rw [hnone] at ha
    cases ha

end Schedule
end RenderFarm
