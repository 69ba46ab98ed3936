import RenderFarm.Proofs.Schedule.Crew

/-!
# RenderFarm.Proofs.Schedule.Conservation

A schedule through any operations, in any order: no task and no worker is lost, and none is there
twice.

* `Operation`, `perform`: all that can be done to a schedule.
* `handedBy`, `droppedBy`: the tasks that leave the schedule with an operation.
* `allows`: what the callers keep to. Only tasks with new names are added, and no dispatch pass goes
  on after the tickets have run out.
* `Moves s came s' went`: the books of a step.
* `Partitioned s`: the tasks wait or run, the workers are idle or busy, and each busy worker has one
  task, of the kind that it is busy with.
* `tasks_conserved`: a schedule stays partitioned, and its books are right, in every run.
-/

namespace RenderFarm
namespace Schedule

inductive Operation where
  | enqueue (t : Task)
  | dispatch (f : Fleet) (now : Nat)
  | complete (w : WorkerName) (n : TaskName)
  | expire (n : TaskName) (ticket : Ticket) (now : Nat)
  | abort (n : TaskName) (ticket : Ticket)
  | syncWorkers (members : List WorkerName)
  | dropExecution (x : ExecutionName)
  | retime (x : ExecutionName) (timeout now : Nat)

def perform (s : Schedule) : Operation → Schedule
  | .enqueue t => s.enqueue t
  | .dispatch f now => (s.dispatch f now).schedule
  | .complete w n => (s.complete w n).1
  | .expire n ticket now => (s.expire n ticket now).1
  | .abort n ticket => (s.abort n ticket).1
  | .syncWorkers members => (s.syncWorkers members).1
  | .dropExecution x => (s.dropExecution x).1
  | .retime x timeout now => (s.retime x timeout now).1

/-- The tasks that come into the schedule. -/
def Operation.entered : Operation → List Task
  | .enqueue t => [t]
  | _ => []

/-- The tasks that the caller gets back. -/
def handedBy (s : Schedule) : Operation → List Task
  | .complete w n => (s.complete w n).2.toList.map Assignment.task
  | .expire n ticket now =>
    match (s.expire n ticket now).2 with
    | .expired a => [a.task]
    | .remaining _ | .stale => []
  | .abort n ticket => (s.abort n ticket).2.toList.map Assignment.task
  | .syncWorkers members => (s.syncWorkers members).2.map Assignment.task
  | .enqueue _ | .dispatch .. | .dropExecution _ | .retime .. => []

/-- The tasks that nobody gets back. -/
def droppedBy (s : Schedule) : Operation → List Task
  | .dropExecution x => s.pending.filter fun t => t.execution = x
  | _ => []

/-- A task with the name waits or runs. -/
def hasTask (s : Schedule) (n : TaskName) : Bool :=
  s.pending.any (fun t => t.name = n) || s.inFlight.contains n

def allows (s : Schedule) : Operation → Bool
  | .enqueue t => !s.hasTask t.name
  | .dispatch f now => (s.dispatch f now).assignments.isSome
  | _ => true

/-! ## Runs -/

/-- The schedule after the operations; the latest operation comes first. -/
def after (reducingFirst : Bool) : List Operation → Schedule
  | [] => new reducingFirst
  | op :: past => (after reducingFirst past).perform op

/-- Every operation was allowed when it came. -/
def lawful (reducingFirst : Bool) : List Operation → Bool
  | [] => true
  | op :: past => (after reducingFirst past).allows op && lawful reducingFirst past

def entered (past : List Operation) : List Task := past.flatMap Operation.entered

def handed (reducingFirst : Bool) : List Operation → List Task
  | [] => []
  | op :: past => (after reducingFirst past).handedBy op ++ handed reducingFirst past

def dropped (reducingFirst : Bool) : List Operation → List Task
  | [] => []
  | op :: past => (after reducingFirst past).droppedBy op ++ dropped reducingFirst past

/-! ## The books of a step -/

/-- What the schedule has in the queue and on workers, without what may change on the way. -/
def stock (s : Schedule) : List Task :=
  s.queue ++ s.inFlight.values.map fun a => a.task.gist

/-- The tasks `came` are added, and the tasks `went` are taken out. -/
def Moves (s : Schedule) (came : List Task) (s' : Schedule) (went : List Task) : Prop :=
  (s.stock ++ came.map Task.gist).Perm (s'.stock ++ went.map Task.gist)

variable {s s' : Schedule} {n : TaskName} {a : Assignment} {came went : List Task}

theorem hasTask_eq_false :
    s.hasTask n = false ↔ n ∉ s.waiting.map Prod.snd ∧ n ∉ s.inFlight.keys := by
  rw [hasTask, Bool.or_eq_false_iff, ← OrderedMap.contains_iff, Bool.not_eq_true,
    and_congr_left_iff]
  intro _
  simp [waiting, Task.tag]

theorem tags_stock (s : Schedule) : s.stock.map Task.tag = s.waiting ++ s.running := by
  simp [stock, queue, waiting, running, Function.comp_def]

theorem Moves.refl (s : Schedule) : Moves s [] s [] := List.Perm.refl _

/-- Names that are apart stay apart. -/
theorem Moves.names (h : Moves s came s' went)
    (hn : ((s.waiting ++ s.running ++ came.map Task.tag).map Prod.snd).Nodup) :
    ((s'.waiting ++ s'.running).map Prod.snd).Nodup := by
  have htags : (s.waiting ++ s.running ++ came.map Task.tag).Perm
      (s'.waiting ++ s'.running ++ went.map Task.tag) := by
    simpa only [List.map_append, tags_stock, List.map_map, Function.comp_def, Task.tag_gist]
      using h.map Task.tag
  have hall := (htags.map Prod.snd).nodup_iff.1 hn
  rw [List.map_append] at hall
  exact (List.nodup_append.1 hall).1

/-- Only the queue changes. -/
theorem Steady.moves (h : Steady s s')
    (hq : (s.queue ++ came.map Task.gist).Perm (s'.queue ++ went.map Task.gist)) :
    Moves s came s' went := by
  have hrun : s'.inFlight.values.map (fun a => a.task.gist) =
      s.inFlight.values.map fun a => a.task.gist := by
    have hv := congrArg (fun m => m.values.map Assignment.task) h.flights
    simpa [Schedule.flights, OrderedMap.values, OrderedMap.mapValues, Assignment.gist,
      Function.comp_def] using hv
  unfold Moves stock
  rw [hrun, List.perm_iff_count]
  intro g
  have := hq.count_eq g
  simp only [List.count_append] at this ⊢
  omega

/-- One assignment ends. -/
theorem moves_erase (ha : s.inFlight.find? n = some a) (hp : s'.pending = s.pending)
    (hin : s'.inFlight = s.inFlight.erase n) : Moves s [] s' [a.task] := by
  have hrun := (OrderedMap.values_perm_erase ha).map fun b => b.task.gist
  unfold Moves stock queue
  rw [hp, hin, List.perm_iff_count]
  intro g
  have := hrun.count_eq g
  simp only [List.map_cons, List.map_nil, List.count_append, List.count_cons, List.count_nil]
    at this ⊢
  omega

theorem moves_syncWorkers (s : Schedule) (members : List WorkerName) :
    Moves s [] (s.syncWorkers members).1 ((s.syncWorkers members).2.map Assignment.task) := by
  obtain ⟨idle, heq⟩ := syncWorkers_fst s members
  let lost := s.busy.keys.filter (· ∉ members)
  have hpart := (List.filter_append_perm (fun a : Assignment => decide (a.worker ∈ lost))
    s.inFlight.values).map fun a => a.task.gist
  have hkept : (s.syncWorkers members).1.inFlight.values =
      s.inFlight.values.filter fun a => !decide (a.worker ∈ lost) := by
    rw [heq]
    simp [lost, OrderedMap.values, OrderedMap.filter, List.filter_map, Function.comp_def]
  unfold Moves stock queue
  rw [hkept, pending_syncWorkers, List.perm_iff_count]
  intro g
  have := hpart.count_eq g
  simp only [List.map_append, List.count_append, List.map_nil, List.count_nil, List.map_map,
    syncWorkers, lost, Function.comp_def] at this ⊢
  omega

/-! ## Busy workers -/

/-- Whoever is busy has a task of the kind. -/
def Posted (s : Schedule) : Prop :=
  ∀ w kind, s.busy.find? w = some kind →
    ∃ n a, s.inFlight.find? n = some a ∧ a.worker = w ∧ a.task.kind = kind

theorem Task.kind_gist (t : Task) : t.gist.kind = t.kind := by
  obtain ⟨_, _, _, work, _⟩ := t
  cases work <;> rfl

theorem Posted.steady (h : Posted s) (hs : Steady s s') : Posted s' := by
  intro w kind hw
  rw [hs.busy] at hw
  obtain ⟨n, a, ha, haw, hkind⟩ := h w kind hw
  obtain ⟨b, hb, hgist, hworker, _⟩ := find?_of_flights hs.flights.symm ha
  refine ⟨n, b, hb, hworker.trans haw, ?_⟩
  rw [← hkind, ← Task.kind_gist b.task, hgist, Task.kind_gist]

/-- With the assignment, its worker's post is gone. -/
theorem Posted.erase (h : Posted s) (ha : s.inFlight.find? n = some a)
    (hbusy : s'.busy = s.busy.erase a.worker) (hin : s'.inFlight = s.inFlight.erase n) :
    Posted s' := by
  intro w kind hw
  rw [hbusy, OrderedMap.find?_erase] at hw
  split at hw
  · cases hw
  · rename_i hne
    obtain ⟨n', a', ha', haw, hkind⟩ := h w kind hw
    refine ⟨n', a', ?_, haw, hkind⟩
    have hn : n ≠ n' := by
      rintro rfl
      cases ha.symm.trans ha'
      exact hne haw
    rw [hin, OrderedMap.find?_erase, if_neg hn]
    exact ha'

theorem Posted.syncWorkers (h : Posted s) (members : List WorkerName) :
    Posted (s.syncWorkers members).1 := by
  obtain ⟨idle, heq⟩ := syncWorkers_fst s members
  rw [heq]
  intro w kind hw
  simp only [OrderedMap.find?_filter, Option.filter_eq_some_iff] at hw
  obtain ⟨n, a, ha, haw, hkind⟩ := h w kind hw.1
  refine ⟨n, a, ?_, haw, hkind⟩
  simp only [OrderedMap.find?_filter, Option.filter_eq_some_iff]
  exact ⟨ha, haw ▸ hw.2⟩

/-! ## Dispatch passes -/

section Dispatch

variable {ts : List Task} {f : Fleet} {as : List Assignment} {p : Pass} {now : Nat}

theorem next?_eq_none (h : ¬ s.nextTicket < Word.top) : s.tickets.next? = none := by
  have hs : ¬ s.tickets.upcoming + 1 < Word.size := fun hs => h (Nat.lt_of_succ_lt_succ hs)
  simp [TicketSource.next?, TicketSource.successor?, hs]

/-- A pass that gives all its assignments has found a ticket for each. -/
theorem room_of_isSome (hle : s.nextTicket ≤ Word.top)
    (h : (dispatchAll now ts s f).assignments.isSome = true) :
    s.nextTicket + min ts.length s.idle.length ≤ Word.top := by
  induction ts generalizing s f with
  | nil => simpa using hle
  | cons t ts ih =>
    cases hidle : s.idle with
    | nil => simpa using hle
    | cons w ws =>
      by_cases hlt : s.nextTicket < Word.top
      · simp only [dispatchAll, hidle, next?_eq hlt, Option.isSome_map] at h
        let s₁ := { s with idle := ws, tickets := ⟨s.nextTicket + 1⟩ }
        have hle₁ : (s₁.assign (withAffinity t f).1 w s.nextTicket now).1.nextTicket ≤ Word.top :=
          hlt
        have hrest : s.nextTicket + 1 + min ts.length ws.length ≤ Word.top := ih hle₁ h
        simp only [List.length_cons, Nat.add_min_add_right]
        omega
      · simp [dispatchAll, hidle, next?_eq_none hlt] at h

end Dispatch

/-! ## One operation -/

/-- What every operation that is allowed keeps. -/
structure Whole (s : Schedule) : Prop where
  manned : Manned s
  posted : Posted s
  keyed : s.Keyed
  names : ((s.waiting ++ s.running).map Prod.snd).Nodup
  tickets : s.nextTicket ≤ Word.top

theorem whole_new (reducingFirst : Bool) : Whole (new reducingFirst) := by
  refine ⟨manned_new _, ?_, ?_, List.nodup_nil, Nat.le_of_ble_eq_true rfl⟩
  · intro w kind hw
    cases hw
  · intro n a ha
    cases ha

/-- Nothing comes into the schedule, so no name can come twice. -/
theorem Whole.moved (h : Whole s) (hm : Moves s [] s' went) :
    ((s'.waiting ++ s'.running).map Prod.snd).Nodup :=
  hm.names (by simpa using h.names)

theorem Whole.steady (h : Whole s) (hs : Steady s s')
    (hn : ((s'.waiting ++ s'.running).map Prod.snd).Nodup) : Whole s' :=
  ⟨h.manned.steady hs, h.posted.steady hs, hs.keyed h.keyed, hn,
    by rw [nextTicket, hs.tickets]; exact h.tickets⟩

theorem whole_enqueue (h : Whole s) {t : Task} (ht : s.hasTask t.name = false) :
    Whole (s.enqueue t) ∧ Moves s [t] (s.enqueue t) [] := by
  have hsteady := steady_enqueue s t
  have hmoves : Moves s [t] (s.enqueue t) [] :=
    hsteady.moves (by simpa using (queue_enqueue s t).symm)
  refine ⟨h.steady hsteady (hmoves.names ?_), hmoves⟩
  rw [List.map_append]
  refine List.concat_eq_append ▸ h.names.concat ?_
  rw [List.map_append, running_keys h.keyed, List.mem_append, not_or]
  exact hasTask_eq_false.1 ht

theorem whole_dropExecution (h : Whole s) (x : ExecutionName) :
    Whole (s.dropExecution x).1 ∧
    Moves s [] (s.dropExecution x).1 (s.pending.filter fun t => t.execution = x) := by
  have hpart := List.filter_append_perm (fun t : Task => decide (t.execution = x)) s.pending
  have hmoves : Moves s [] (s.dropExecution x).1 (s.pending.filter fun t => t.execution = x) := by
    refine (steady_dropExecution s x).moves ?_
    have hq := (List.perm_append_comm.trans hpart).symm.map Task.gist
    simpa [queue, dropExecution] using hq
  exact ⟨h.steady (steady_dropExecution s x) (h.moved hmoves), hmoves⟩

theorem whole_retime (h : Whole s) (x : ExecutionName) (timeout now : Nat) :
    Whole (s.retime x timeout now).1 ∧ Moves s [] (s.retime x timeout now).1 [] := by
  have hmoves : Moves s [] (s.retime x timeout now).1 [] :=
    (steady_retime s x timeout now).moves (by rw [queue_retime])
  exact ⟨h.steady (steady_retime s x timeout now) (h.moved hmoves), hmoves⟩

theorem whole_complete {w : WorkerName} (h : Whole s) (hc : s.complete w n = (s', some a)) :
    Whole s' ∧ Moves s [] s' [a.task] := by
  obtain ⟨ha, hw, heq⟩ := complete_some h.manned hc
  have hfrees := (frees_complete hc).2
  have hmoves : Moves s [] s' [a.task] := by
    rw [heq]
    exact moves_erase ha rfl rfl
  refine ⟨⟨(manned_complete h.manned hc).1, ?_, hfrees.keyed h.keyed, h.moved hmoves, ?_⟩, hmoves⟩
  · rw [heq]
    exact h.posted.erase ha (by rw [hw]) rfl
  · rw [hfrees.tickets]
    exact h.tickets

theorem whole_release (h : Whole s) (ha : s.inFlight.find? n = some a) :
    Whole (s.release n a.worker) ∧ Moves s [] (s.release n a.worker) [a.task] := by
  have hmoves : Moves s [] (s.release n a.worker) [a.task] := moves_erase ha rfl rfl
  exact ⟨⟨(manned_release h.manned ha).1, h.posted.erase ha rfl rfl,
    (frees_release ha a.worker).keyed h.keyed, h.moved hmoves, h.tickets⟩, hmoves⟩

theorem whole_syncWorkers (h : Whole s) (members : List WorkerName) :
    Whole (s.syncWorkers members).1 ∧
    Moves s [] (s.syncWorkers members).1 ((s.syncWorkers members).2.map Assignment.task) := by
  have hfrees := frees_syncWorkers s members
  have hmoves := moves_syncWorkers s members
  exact ⟨⟨(manned_syncWorkers h.manned members).1, h.posted.syncWorkers members,
    hfrees.keyed h.keyed, h.moved hmoves, hfrees.tickets ▸ h.tickets⟩, hmoves⟩

theorem nextTicket_dispatchAll_le (now : Nat) (ts : List Task) (f : Fleet)
    (hle : s.nextTicket ≤ Word.top) :
    (dispatchAll now ts s f).schedule.nextTicket ≤ Word.top := by
  induction ts generalizing s f with
  | nil => exact hle
  | cons t ts ih =>
    simp only [dispatchAll]
    cases hidle : s.idle with
    | nil => exact hle
    | cons w ws =>
      by_cases hlt : s.nextTicket < Word.top
      · simp only [next?_eq hlt]
        exact ih _ hlt
      · simp only [next?_eq_none hlt]
        exact hle

/-- A pass for which no ticket is left loses a task and a worker, and the rest stays whole. -/
theorem whole_pass (h : Whole s) (f : Fleet) (now : Nat) : Whole (s.dispatch f now).schedule := by
  have htickets := nextTicket_dispatchAll_le now s.pending f h.tickets
  obtain ⟨as, hd⟩ := dealt_dispatch s f now
  have hentries := hd.entries h.keyed h.names
  have hscheduled := hd.scheduled h.keyed h.names
  refine ⟨hd.manned h.manned, ?_, hd.keyed h.keyed, ?_, htickets⟩
  · intro w kind hw
    rw [hd.busy] at hw
    rcases OrderedMap.find?_foldl_insert hw with ⟨a, ha, haw, hkind⟩ | hold
    · refine ⟨a.task.name, a, OrderedMap.mem_entries_iff.1 ?_, haw, hkind⟩
      rw [hentries]
      exact List.mem_append_right _ (List.mem_map_of_mem ha)
    · obtain ⟨n, a, ha, haw, hkind⟩ := h.posted w kind hold
      refine ⟨n, a, OrderedMap.mem_entries_iff.1 ?_, haw, hkind⟩
      rw [hentries]
      exact List.mem_append_left _ (OrderedMap.mem_entries_iff.2 ha)
  · obtain ⟨kept, hperm, hsub⟩ := hscheduled
    exact (hperm.map Prod.snd).nodup_iff.1 (h.names.sublist (hsub.map Prod.snd))

theorem whole_dispatch (h : Whole s) {f : Fleet} {now : Nat}
    (hall : (s.dispatch f now).assignments.isSome = true) :
    Whole (s.dispatch f now).schedule ∧ Moves s [] (s.dispatch f now).schedule [] := by
  have hroom := room_of_isSome h.tickets hall
  obtain ⟨as, hd⟩ := dealt_dispatch s f now
  have hpending := pending_dispatch hroom f now
  have hlength := (hd.all hroom).2.1
  have hentries := hd.entries h.keyed h.names
  refine ⟨whole_pass h f now, ?_⟩
  generalize s.dispatch f now = p at hd hpending hlength hentries
  -- the pass has found a ticket for each of its tasks, so it took no task without giving it away
  have hqueue : as.map (fun a => a.task.gist) ++ p.schedule.queue = s.queue := by
    refine hd.tasks.eq_of_length ?_
    simp only [queue, hpending, List.length_append, List.length_map, List.length_drop]
    omega
  unfold Moves stock
  rw [← hqueue, List.perm_iff_count]
  intro g
  simp only [OrderedMap.values, hentries, List.map_append, List.map_map, List.count_append,
    List.map_nil, List.count_nil, Function.comp_def]
  omega

theorem complete_none {w : WorkerName} (h : s.complete w n = (s', none)) : s' = s := by
  unfold complete at h
  split at h
  · cases h
    rfl
  · split at h
    · dsimp only at h
      split at h <;> cases h
    · cases h
      rfl

/-- An operation keeps the schedule whole, and its books are right. -/
theorem perform_whole (h : Whole s) {op : Operation} (hop : s.allows op = true) :
    Whole (s.perform op) ∧
    Moves s op.entered (s.perform op) (s.handedBy op ++ s.droppedBy op) := by
  cases op with
  | enqueue t => exact whole_enqueue h (by simpa [allows] using hop)
  | dispatch f now => exact whole_dispatch h hop
  | complete w n =>
    simp only [perform, handedBy, droppedBy, Operation.entered]
    rcases hc : s.complete w n with ⟨s₁, _ | a⟩
    · obtain rfl := complete_none hc
      exact ⟨h, .refl _⟩
    · exact whole_complete h hc
  | expire n ticket now =>
    simp only [perform, handedBy, droppedBy, Operation.entered, expire]
    cases ha : s.current? n ticket with
    | none => exact ⟨h, .refl s⟩
    | some a =>
      by_cases hlate : now - a.since < a.task.timeout
      · simp only [hlate, if_true]
        exact ⟨h, .refl s⟩
      · simp only [hlate, if_false]
        exact whole_release h (current?_eq_some.1 ha).1
  | abort n ticket =>
    simp only [perform, handedBy, droppedBy, Operation.entered, abort]
    cases ha : s.current? n ticket with
    | none => exact ⟨h, .refl s⟩
    | some a => exact whole_release h (current?_eq_some.1 ha).1
  | syncWorkers members =>
    simpa [perform, handedBy, droppedBy, Operation.entered] using whole_syncWorkers h members
  | dropExecution x => exact whole_dropExecution h x
  | retime x timeout now => exact whole_retime h x timeout now

/-! ## Any operations -/

theorem after_whole {reducingFirst : Bool} {past : List Operation}
    (h : lawful reducingFirst past = true) : Whole (after reducingFirst past) := by
  induction past with
  | nil => exact whole_new reducingFirst
  | cons op past ih =>
    simp only [lawful, Bool.and_eq_true] at h
    exact (perform_whole (ih h.2) h.1).1

theorem after_stock {reducingFirst : Bool} {past : List Operation}
    (h : lawful reducingFirst past = true) :
    Moves (new reducingFirst) (entered past) (after reducingFirst past)
      (handed reducingFirst past ++ dropped reducingFirst past) := by
  induction past with
  | nil => exact .refl _
  | cons op past ih =>
    simp only [lawful, Bool.and_eq_true] at h
    have hbefore := ih h.2
    have hstep := (perform_whole (after_whole h.2) h.1).2
    unfold Moves at hbefore hstep ⊢
    rw [List.perm_iff_count] at hbefore hstep ⊢
    intro g
    have := hbefore g
    have := hstep g
    simp only [entered, handed, dropped, after, List.flatMap_cons, List.map_append,
      List.count_append] at *
    omega

structure Partitioned (s : Schedule) : Prop where
  idle_nodup : s.idle.Nodup
  apart : ∀ w ∈ s.idle, w ∉ s.busy.keys
  posts : ∀ w kind, s.busy.find? w = some kind ↔
    ∃ n a, s.inFlight.find? n = some a ∧ a.worker = w ∧ a.task.kind = kind
  single : ∀ n n' a a', s.inFlight.find? n = some a → s.inFlight.find? n' = some a' →
    a.worker = a'.worker → n = n'
  keyed : ∀ n a, s.inFlight.find? n = some a → a.task.name = n
  names : (s.pending.map Task.name ++ s.inFlight.keys).Nodup

theorem Whole.partitioned (h : Whole s) : Partitioned s where
  idle_nodup := h.manned.idle_nodup
  apart := h.manned.apart
  posts := by
    intro w kind
    refine ⟨h.posted w kind, ?_⟩
    rintro ⟨n, a, ha, rfl, rfl⟩
    obtain ⟨kind, hkind⟩ := OrderedMap.mem_keys_iff.1 (h.manned.held n a ha)
    obtain ⟨n', a', ha', hw, rfl⟩ := h.posted a.worker kind hkind
    obtain rfl := h.manned.single n' n a' a ha' ha hw
    cases ha.symm.trans ha'
    exact hkind
  single := h.manned.single
  keyed := fun n a ha => h.keyed n a (OrderedMap.mem_entries_iff.2 ha)
  names := by
    have hn := h.names
    rw [List.map_append, running_keys h.keyed] at hn
    simpa [waiting, Function.comp_def, Task.tag] using hn

/-- After any operations that the callers may use, the workers and the tasks are where they belong.
Whatever was added, so many times, waits or runs, or was handed back, or was dropped: on its way a
task may have got a new timeout and a nearer source. -/
theorem tasks_conserved (reducingFirst : Bool) (past : List Operation)
    (h : lawful reducingFirst past = true) :
    let s := after reducingFirst past
    Partitioned s ∧
    ((entered past).map Task.gist).Perm
      ((s.pending ++ s.inFlight.values.map Assignment.task ++ handed reducingFirst past ++
        dropped reducingFirst past).map Task.gist) := by
  refine ⟨(after_whole h).partitioned, ?_⟩
  have hmoves := after_stock h
  simpa [Moves, stock, queue, new, OrderedMap.empty, OrderedMap.values, Function.comp_def]
    using hmoves

/-- A merge overtakes, is reported, comes again and is lost with its worker; one task is late, one
cannot be delivered, one is dropped, and two are still there at the end. -/
def sampleOperations : List Operation :=
  [.syncWorkers [⟨"w1"⟩, ⟨"w2"⟩, ⟨"w1"⟩], .enqueue (unit "p1" "x"), .enqueue (unit "p2" "x"),
    .enqueue (unit "p3" "x"), .enqueue merge, .enqueue (unit "q1" "y"), .dispatch (.new 4) 0,
    .retime ⟨"x"⟩ 10 5, .complete ⟨"w1"⟩ ⟨"r"⟩, .dispatch (.new 4) 6, .expire ⟨"p1"⟩ 2 20,
    .abort ⟨"p2"⟩ 3, .enqueue merge, .syncWorkers [⟨"w3"⟩], .dispatch (.new 4) 30,
    .syncWorkers [⟨"w4"⟩], .dropExecution ⟨"x"⟩, .dispatch (.new 4) 40,
    .enqueue (unit "q2" "y")].reverse
where
  unit (n x : String) : Task := ⟨⟨n⟩, ⟨"s"⟩, ⟨x⟩, .produce 0 .nothing, 50⟩
  merge : Task := ⟨⟨"r"⟩, ⟨"s"⟩, ⟨"x"⟩, .reduce [], 50⟩

theorem tasks_conserved_sample :
    let s := after true sampleOperations
    (Partitioned s ∧
      ((entered sampleOperations).map Task.gist).Perm
        ((s.pending ++ s.inFlight.values.map Assignment.task ++ handed true sampleOperations ++
          dropped true sampleOperations).map Task.gist)) ∧
    s.pending.map Task.name = [⟨"q2"⟩] ∧ s.inFlight.keys = [⟨"q1"⟩] ∧ s.busy.keys = [⟨"w4"⟩] ∧
    (handed true sampleOperations).map Task.name = [⟨"r"⟩, ⟨"p2"⟩, ⟨"p1"⟩, ⟨"r"⟩] ∧
    (dropped true sampleOperations).map Task.name = [⟨"p3"⟩] :=
  ⟨tasks_conserved true sampleOperations (by decide +kernel), by decide +kernel,
    by decide +kernel, by decide +kernel, by decide +kernel, by decide +kernel⟩

end Schedule
end RenderFarm
