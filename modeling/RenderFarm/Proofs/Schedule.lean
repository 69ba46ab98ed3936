import RenderFarm.Proofs.OrderedMap
import RenderFarm.Schedule

/-!
# RenderFarm.Proofs.Schedule

Where the tasks of a schedule are. A task keeps its execution and its name on its way, whatever
else changes; this is its tag.

* `Keeps s s'`: the tasks that run are the same, whatever happens to the queue.
* `Frees s out s'`: the tasks `out` are taken off their workers.
* `Deals ts s pass`: a dispatch pass moves tasks from the queue to workers, and loses none.
-/

namespace RenderFarm

abbrev Tag := ExecutionName × TaskName

def Task.tag (t : Task) : Tag := (t.execution, t.name)

namespace Schedule

/-- The tags of the tasks that wait. -/
def waiting (s : Schedule) : List Tag := s.pending.map Task.tag

/-- The tags of the tasks that run. -/
def running (s : Schedule) : List Tag := s.inFlight.values.map fun a => a.task.tag

/-- The number of the next ticket. -/
def nextTicket (s : Schedule) : Nat := s.tickets.upcoming

/-- Every assignment is kept under the name of its task. -/
def Keyed (s : Schedule) : Prop := ∀ n a, (n, a) ∈ s.inFlight.entries → a.task.name = n

theorem running_keys {s : Schedule} (hk : s.Keyed) : s.running.map Prod.snd = s.inFlight.keys := by
  simp only [running, OrderedMap.values, OrderedMap.keys, List.map_map]
  exact List.map_congr_left fun e he => hk e.1 e.2 he

theorem Keyed.tag {s : Schedule} (hk : s.Keyed) {n : TaskName} {a : Assignment}
    (ha : s.inFlight.find? n = some a) : a.task.tag = (a.task.execution, n) := by
  have := hk n a (OrderedMap.mem_entries_iff.2 ha)
  rw [Task.tag, this]

theorem mem_running {s : Schedule} {n : TaskName} {a : Assignment}
    (ha : s.inFlight.find? n = some a) : a.task.tag ∈ s.running :=
  List.mem_map_of_mem (OrderedMap.mem_values_iff.2 ⟨n, ha⟩) (f := fun a => a.task.tag)

/-! ## The queue -/

structure Keeps (s s' : Schedule) : Prop where
  running : s'.running = s.running
  keyed : s.Keyed → s'.Keyed
  tickets : s'.nextTicket = s.nextTicket

theorem Keeps.refl (s : Schedule) : Keeps s s := ⟨rfl, id, rfl⟩

theorem Keeps.trans {s₁ s₂ s₃ : Schedule} (h : Keeps s₁ s₂) (h' : Keeps s₂ s₃) : Keeps s₁ s₃ :=
  ⟨h'.running.trans h.running, h'.keyed ∘ h.keyed, h'.tickets.trans h.tickets⟩

theorem insertBeforeProducing_perm (t : Task) (ts : List Task) :
    (insertBeforeProducing t ts).Perm (ts ++ [t]) := by
  induction ts with
  | nil => exact .refl _
  | cons u us ih =>
    simp only [insertBeforeProducing]
    split
    · exact (List.perm_append_singleton t (u :: us)).symm
    · exact ih.cons u

theorem waiting_enqueue (s : Schedule) (t : Task) :
    (s.enqueue t).waiting.Perm (s.waiting ++ [t.tag]) := by
  unfold enqueue
  split
  · simpa [waiting] using (insertBeforeProducing_perm t s.pending).map Task.tag
  · simp [waiting]

theorem keeps_enqueue (s : Schedule) (t : Task) : Keeps s (s.enqueue t) := by
  unfold enqueue
  split <;> exact ⟨rfl, id, rfl⟩

theorem waiting_dropExecution (s : Schedule) (x : ExecutionName) :
    (s.dropExecution x).1.waiting = s.waiting.filter fun g => g.1 ≠ x := by
  simp only [dropExecution, waiting, List.filter_map]
  rfl

theorem keeps_dropExecution (s : Schedule) (x : ExecutionName) : Keeps s (s.dropExecution x).1 :=
  ⟨rfl, id, rfl⟩

@[simp] theorem tag_retimed (x : ExecutionName) (timeout : Nat) (t : Task) :
    (retimed x timeout t).tag = t.tag := by
  unfold retimed
  split <;> rfl

theorem waiting_retime (s : Schedule) (x : ExecutionName) (timeout now : Nat) :
    (s.retime x timeout now).1.waiting = s.waiting := by
  simp [retime, waiting, Function.comp_def]

theorem keeps_retime (s : Schedule) (x : ExecutionName) (timeout now : Nat) :
    Keeps s (s.retime x timeout now).1 := by
  refine ⟨?_, ?_, rfl⟩
  · simp [retime, running, OrderedMap.values, OrderedMap.mapValues, Function.comp_def]
  · intro hk n a ha
    obtain ⟨⟨n', a'⟩, he, heq⟩ := List.mem_map.1 ha
    cases heq
    have := congrArg Prod.snd (tag_retimed x timeout a'.task)
    exact this.trans (hk n' a' he)

/-! ## The end of assignments -/

/-- The tasks `out` are taken off their workers. -/
structure Frees (s : Schedule) (out : List Tag) (s' : Schedule) : Prop where
  waiting : s'.waiting = s.waiting
  running : s.running.Perm (out ++ s'.running)
  keyed : s.Keyed → s'.Keyed
  tickets : s'.nextTicket = s.nextTicket

theorem Frees.refl (s : Schedule) : Frees s [] s :=
  ⟨rfl, .refl _, id, rfl⟩

theorem frees_release {s : Schedule} {n : TaskName} {a : Assignment}
    (h : s.inFlight.find? n = some a) (w : WorkerName) : Frees s [a.task.tag] (s.release n w) := by
  have hp := OrderedMap.entries_perm_erase h
  refine ⟨rfl, ?_, ?_, rfl⟩
  · simpa [running, OrderedMap.values, release, Function.comp_def] using
      hp.map fun e => e.2.task.tag
  · intro hk n' a' ha
    exact hk n' a' (hp.mem_iff.2 (List.mem_cons_of_mem _ ha))

theorem find?_of_current? {s : Schedule} {n : TaskName} {ticket : Ticket} {a : Assignment}
    (h : s.current? n ticket = some a) : s.inFlight.find? n = some a := by
  unfold current? at h
  split at h
  · rename_i a' ha
    split at h
    · cases h
      exact ha
    · cases h
  · cases h

theorem frees_complete {s s' : Schedule} {w : WorkerName} {n : TaskName} {a : Assignment}
    (h : s.complete w n = (s', some a)) :
    s.inFlight.find? n = some a ∧ Frees s [a.task.tag] s' := by
  unfold complete at h
  split at h
  · cases h
  · rename_i a' ha
    split at h
    · have hr := frees_release ha w
      dsimp only at h
      split at h <;> cases h <;> exact ⟨ha, hr.waiting, hr.running, hr.keyed, hr.tickets⟩
    · cases h

theorem frees_abort {s s' : Schedule} {n : TaskName} {ticket : Ticket} {a : Assignment}
    (h : s.abort n ticket = (s', some a)) :
    s.inFlight.find? n = some a ∧ Frees s [a.task.tag] s' := by
  unfold abort at h
  split at h
  · rename_i a' ha
    cases h
    exact ⟨find?_of_current? ha, frees_release (find?_of_current? ha) _⟩
  · cases h

theorem frees_expire {s s' : Schedule} {n : TaskName} {ticket : Ticket} {now : Nat}
    {a : Assignment} (h : s.expire n ticket now = (s', .expired a)) :
    s.inFlight.find? n = some a ∧ Frees s [a.task.tag] s' := by
  unfold expire at h
  split at h
  · cases h
  · rename_i a' ha
    split at h
    · cases h
    · cases h
      exact ⟨find?_of_current? ha, frees_release (find?_of_current? ha) _⟩

theorem frees_enlist (s : Schedule) (ws : List WorkerName) : Frees s [] (s.enlist ws) := by
  induction ws generalizing s with
  | nil => exact ⟨rfl, .refl _, id, rfl⟩
  | cons w ws ih =>
    simp only [enlist]
    split
    · exact ih s
    · have h := ih { s with idle := s.idle ++ [w] }
      exact ⟨h.waiting, h.running, h.keyed, h.tickets⟩

theorem frees_syncWorkers (s : Schedule) (members : List WorkerName) :
    Frees s ((s.syncWorkers members).2.map fun a => a.task.tag) (s.syncWorkers members).1 := by
  let lost := s.busy.keys.filter (· ∉ members)
  let kept := { s with
    idle := s.idle.filter (· ∈ members)
    busy := s.busy.filter fun w _ => w ∉ lost
    inFlight := s.inFlight.filter fun _ a => a.worker ∉ lost }
  have h : Frees kept [] (s.syncWorkers members).1 := frees_enlist kept members
  refine ⟨h.waiting, ?_, fun hk => h.keyed ?_, h.tickets⟩
  · have hpart := List.filter_append_perm (fun a : Assignment => decide (a.worker ∈ lost))
      s.inFlight.values
    have hkept : kept.running = (s.inFlight.values.filter fun a => !decide (a.worker ∈ lost)).map
        fun a => a.task.tag := by
      simp [kept, running, OrderedMap.values, OrderedMap.filter, List.filter_map, Function.comp_def]
    have := hpart.symm.map fun a => a.task.tag
    rw [List.map_append, ← hkept] at this
    exact this.trans (h.running.append_left _)
  · intro n a ha
    exact hk n a (List.mem_filter.1 ha).1

/-! ## Dispatch -/

/-- The tasks `ts` wait for a dispatch pass. It takes some from the front to workers, with a ticket
for each, and the others keep waiting. -/
structure Deals (ts : List Task) (s : Schedule) (p : Pass) : Prop where
  moved : ∃ dealt, ts.map Task.tag = dealt ++ p.schedule.waiting ∧
    p.schedule.running.Perm (s.running ++ dealt)
  keyed : p.schedule.Keyed
  tickets : p.schedule.nextTicket = s.nextTicket + min ts.length s.idle.length

theorem withAffinity_tag (t : Task) (f : Fleet) : (withAffinity t f).1.tag = t.tag := by
  unfold withAffinity
  split
  · split <;> rfl
  · rfl

theorem next?_eq {s : Schedule} (h : s.nextTicket < Word.top) :
    s.tickets.next? = some (s.nextTicket, ⟨s.nextTicket + 1⟩) := by
  have : s.tickets.upcoming + 1 < Word.size := Nat.succ_lt_succ h
  simp [TicketSource.next?, TicketSource.successor?, this, nextTicket]

theorem running_assign {s : Schedule} {t : Task} (h : t.name ∉ s.inFlight.keys) (w : WorkerName)
    (ticket : Ticket) (now : Nat) :
    (s.assign t w ticket now).1.running = s.running ++ [t.tag] := by
  simp [assign, running, OrderedMap.values, OrderedMap.entries_insert_new _ h]

theorem keyed_assign {s : Schedule} {t : Task} (hk : s.Keyed) (h : t.name ∉ s.inFlight.keys)
    (w : WorkerName) (ticket : Ticket) (now : Nat) : (s.assign t w ticket now).1.Keyed := by
  intro n a ha
  simp only [assign, OrderedMap.entries_insert_new _ h] at ha
  rcases List.mem_append.1 ha with ha | ha
  · exact hk n a ha
  · cases List.mem_singleton.1 ha
    rfl

/-- A task that is given to a worker is scheduled as before. -/
theorem scheduled_assign {s : Schedule} {t : Task} (h : t.name ∉ s.inFlight.keys)
    (w : WorkerName) (ticket : Ticket) (now : Nat) (waiting : List Tag) :
    (waiting ++ (s.assign t w ticket now).1.running).Perm (t.tag :: waiting ++ s.running) := by
  rw [running_assign h, ← List.append_assoc, List.cons_append]
  exact List.perm_append_singleton _ _

theorem deals_dispatchAll (now : Nat) (ts : List Task) (s : Schedule) (f : Fleet) (hk : s.Keyed)
    (hn : ((ts.map Task.tag ++ s.running).map Prod.snd).Nodup)
    (ht : s.nextTicket + min ts.length s.idle.length ≤ Word.top) :
    Deals ts s (dispatchAll now ts s f) := by
  induction ts generalizing s f with
  | nil => exact ⟨⟨[], rfl, by simp [dispatchAll, running]⟩, hk, by simp [dispatchAll, nextTicket]⟩
  | cons t ts ih =>
    cases hidle : s.idle with
    | nil =>
      simp only [dispatchAll, hidle]
      exact ⟨⟨[], rfl, by simp [running]⟩, hk, by simp [hidle, nextTicket]⟩
    | cons w ws =>
      rw [hidle] at ht
      simp only [List.length_cons, Nat.add_min_add_right] at ht
      have htag := withAffinity_tag t f
      have hname : (withAffinity t f).1.name = t.name := congrArg Prod.snd htag
      -- a task in the queue is on no worker, since no name is scheduled twice
      have hnew : (withAffinity t f).1.name ∉ s.inFlight.keys := by
        rw [hname, ← running_keys hk]
        rw [List.map_append, List.nodup_append] at hn
        exact fun hmem => hn.2.2 _ (List.mem_map_of_mem List.mem_cons_self) _ hmem rfl
      let s' := { s with idle := ws, tickets := ⟨s.nextTicket + 1⟩ }
      have hrun := running_assign (s := s') hnew w s.nextTicket now
      have hnames : ((ts.map Task.tag ++ (s'.assign (withAffinity t f).1 w s.nextTicket
          now).1.running).map Prod.snd).Nodup := by
        have hperm := scheduled_assign (s := s') hnew w s.nextTicket now (ts.map Task.tag)
        rw [htag] at hperm
        exact (hperm.map Prod.snd).nodup_iff.2 hn
      have hrest := ih _ (withAffinity t f).2 (keyed_assign (s := s') hk hnew w s.nextTicket now)
        hnames (by
          show s.nextTicket + 1 + min ts.length ws.length ≤ Word.top
          omega)
      simp only [dispatchAll, hidle, next?_eq (s := s) (by omega)]
      obtain ⟨dealt, hwait, hperm⟩ := hrest.moved
      refine ⟨⟨t.tag :: dealt, ?_, ?_⟩, hrest.keyed, ?_⟩
      · exact congrArg (t.tag :: ·) hwait
      · rw [hrun, htag, List.append_assoc] at hperm
        exact hperm
      · refine hrest.tickets.trans ?_
        show s.nextTicket + 1 + min ts.length ws.length = _
        simp only [hidle, List.length_cons, Nat.add_min_add_right]
        omega

/-- A dispatch pass loses no task if the tickets do not run out. -/
theorem deals_dispatch {s : Schedule} (hk : s.Keyed)
    (hn : ((s.waiting ++ s.running).map Prod.snd).Nodup)
    (ht : s.nextTicket + min s.pending.length s.idle.length ≤ Word.top) (f : Fleet) (now : Nat) :
    Deals s.pending s (s.dispatch f now) :=
  deals_dispatchAll now s.pending s f hk hn ht

end Schedule
end RenderFarm
