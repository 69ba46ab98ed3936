import RenderFarm.Proofs.Schedule.Conservation

/-!
# RenderFarm.Proofs.Schedule.Pool

What it comes to when a schedule follows the live workers: four collections are gone through one
after the other, and the members that are new are found last.

* `newcomers s members`: the members that are neither idle nor busy.
* `syncWorkers_eq`: each of the collections on its own.
* `distinct`: in a run no task is added under the name of one that waits or runs.
* `Followed s members s' back`: the workers of `s'` are the members, and nothing but that has
  changed.
* `workers_followed`: this is so after any operations, and it is settled the first time.
-/

namespace RenderFarm
namespace Schedule

variable {s : Schedule} {members : List WorkerName}

/-! ## The members that are new -/

/-- The members that are neither idle nor busy, each once, as the list has them. -/
def newcomers (s : Schedule) (members : List WorkerName) : List WorkerName :=
  (members.filter fun w => w ∉ s.idle ∧ w ∉ s.busy.keys).eraseDups

theorem mem_newcomers {w : WorkerName} :
    w ∈ s.newcomers members ↔ w ∈ members ∧ w ∉ s.idle ∧ w ∉ s.busy.keys := by
  simp [newcomers]

theorem idle_enlist (s : Schedule) (ws : List WorkerName) :
    (s.enlist ws).idle = s.idle ++ s.newcomers ws := by
  induction ws generalizing s with
  | nil => simp [enlist, newcomers]
  | cons w ws ih =>
    simp only [enlist]
    split
    · rename_i hw
      have hw : ¬ (w ∉ s.idle ∧ w ∉ s.busy.keys) := by
        simp only [Bool.or_eq_true, decide_eq_true_eq, OrderedMap.contains_iff] at hw
        exact fun h => hw.elim h.2 h.1
      rw [ih, newcomers, newcomers, List.filter_cons_of_neg (by simpa using hw)]
    · rename_i hw
      have hw : w ∉ s.idle ∧ w ∉ s.busy.keys := by
        simpa [OrderedMap.contains_iff, and_comm] using hw
      -- the worker is idle when it is named again
      rw [ih, newcomers, newcomers, OrderedMap.eraseDups_filter_cons (by simpa using hw)]
      simp [Bool.and_right_comm]

/-! ## One pass -/

/-- A worker that is busy is a worker that has a task, so it does not matter which of the two is
asked for. -/
theorem syncWorkers_eq (h : Manned s) (members : List WorkerName) :
    s.syncWorkers members =
      ({ s with
          idle := s.idle.filter (· ∈ members) ++ s.newcomers members
          busy := s.busy.filter fun w _ => w ∈ members
          inFlight := s.inFlight.filter fun _ a => a.worker ∈ members },
        s.inFlight.values.filter fun a => a.worker ∉ members) := by
  have hlost : ∀ w ∈ s.busy.keys, w ∈ s.busy.keys.filter (· ∉ members) ↔ w ∉ members := by
    intro w hw
    simp [hw]
  have hbusy : (s.busy.filter fun w _ => w ∉ s.busy.keys.filter (· ∉ members)) =
      s.busy.filter fun w _ => w ∈ members := by
    refine OrderedMap.filter_congr fun w kind hw => decide_eq_decide.2 ?_
    rw [hlost w (OrderedMap.mem_keys_iff.2 ⟨kind, hw⟩), not_not]
  have hflight : (s.inFlight.filter fun _ a => a.worker ∉ s.busy.keys.filter (· ∉ members)) =
      s.inFlight.filter fun _ a => a.worker ∈ members := by
    refine OrderedMap.filter_congr fun n a ha => decide_eq_decide.2 ?_
    rw [hlost _ (h.held n a ha), not_not]
  have horphans :
      (s.inFlight.values.filter fun a => a.worker ∈ s.busy.keys.filter (· ∉ members)) =
        s.inFlight.values.filter fun a => a.worker ∉ members := by
    refine List.filter_congr fun a ha => decide_eq_decide.2 ?_
    obtain ⟨n, ha⟩ := OrderedMap.mem_values_iff.1 ha
    exact hlost _ (h.held n a ha)
  simp only [syncWorkers, hbusy, hflight, horphans]
  let kept := { s with
    idle := s.idle.filter (· ∈ members)
    busy := s.busy.filter fun w _ => w ∈ members
    inFlight := s.inFlight.filter fun _ a => a.worker ∈ members }
  have hnew : kept.newcomers members = s.newcomers members := by
    refine congrArg List.eraseDups (List.filter_congr fun w hw => decide_eq_decide.2 ?_)
    simp [kept, hw, OrderedMap.mem_keys_iff, OrderedMap.find?_filter]
  obtain ⟨idle, heq⟩ := enlist_eq kept members
  have hidle := idle_enlist kept members
  rw [heq, hnew] at hidle
  show (kept.enlist members, _) = _
  rw [heq, show idle = _ from hidle]

/-- What is left of the workers are members, and all members are there. -/
theorem syncWorkers_again (h : Manned s) (members : List WorkerName) :
    (s.syncWorkers members).1.syncWorkers members = ((s.syncWorkers members).1, []) := by
  obtain ⟨hm, hen⟩ := manned_syncWorkers h members
  generalize (s.syncWorkers members).1 = s' at hm hen
  have hidle : s'.idle.filter (· ∈ members) = s'.idle :=
    List.filter_eq_self.2 fun w hw => decide_eq_true ((hen w).1 (.inl hw))
  have hbusy : (s'.busy.filter fun w _ => w ∈ members) = s'.busy :=
    OrderedMap.filter_eq_self fun w kind hw =>
      decide_eq_true ((hen w).1 (.inr (OrderedMap.mem_keys_iff.2 ⟨kind, hw⟩)))
  have hworker : ∀ n a, s'.inFlight.find? n = some a → a.worker ∈ members := fun n a ha =>
    (hen a.worker).1 (.inr (hm.held n a ha))
  have hflight : (s'.inFlight.filter fun _ a => a.worker ∈ members) = s'.inFlight :=
    OrderedMap.filter_eq_self fun n a ha => decide_eq_true (hworker n a ha)
  have horphans : (s'.inFlight.values.filter fun a => a.worker ∉ members) = [] := by
    refine List.filter_eq_nil_iff.2 fun a ha => ?_
    obtain ⟨n, ha⟩ := OrderedMap.mem_values_iff.1 ha
    simpa using hworker n a ha
  have hnew : s'.newcomers members = [] := by
    refine List.eq_nil_iff_forall_not_mem.2 fun w hw => ?_
    obtain ⟨hmember, hi, hb⟩ := mem_newcomers.1 hw
    exact ((hen w).2 hmember).elim hi hb
  rw [syncWorkers_eq hm, hidle, hbusy, hflight, horphans, hnew, List.append_nil]

theorem nodup_inFlight (hk : s.Keyed) : (s.inFlight.values.map fun a => a.task.name).Nodup := by
  have hkeys : (s.inFlight.values.map fun a => a.task.name) = s.inFlight.keys := by
    simp only [OrderedMap.values, OrderedMap.keys, List.map_map]
    exact List.map_congr_left fun e he => hk e.1 e.2 he
  rw [hkeys]
  exact s.inFlight.nodup

/-- What the schedule `s` has become when it has followed the members, and what it gave back. -/
structure Followed (s : Schedule) (members : List WorkerName) (s' : Schedule)
    (back : List Assignment) : Prop where
  /-- The members, and no others, are idle or busy, and none of them is both. -/
  enlisted : ∀ w, w ∈ s'.idle ∨ w ∈ s'.busy.keys ↔ w ∈ members
  apart : s'.idle.Nodup ∧ ∀ w ∈ s'.idle, w ∉ s'.busy.keys
  /-- A member is what it was, and idle if it is new. -/
  states : ∀ w, s'.workerState? w =
    if w ∈ members then some ((s.workerState? w).getD .idle) else none
  /-- A busy member keeps its task. -/
  posts : ∀ w ∈ members, ∀ kind, s.busy.find? w = some kind → ∃ n a,
    a.worker = w ∧ a.task.kind = kind ∧
    s.inFlight.find? n = some a ∧ s'.inFlight.find? n = some a
  busy : s'.busy = s.busy.filter fun w _ => w ∈ members
  flights : s'.inFlight = s.inFlight.filter fun _ a => a.worker ∈ members
  idle : s'.idle = s.idle.filter (· ∈ members) ++ s.newcomers members
  orphans : back = s.inFlight.values.filter fun a => a.worker ∉ members
  once : (back.map fun a => a.task.name).Nodup
  gone : ∀ a ∈ back, s'.inFlight.find? a.task.name = none
  pending : s'.pending = s.pending
  /-- The members are followed already. -/
  again : s'.syncWorkers members = (s', [])

theorem workerState?_syncWorkers (h : Manned s) (members : List WorkerName) (w : WorkerName) :
    (s.syncWorkers members).1.workerState? w =
      if w ∈ members then some ((s.workerState? w).getD .idle) else none := by
  rw [syncWorkers_eq h]
  simp only [workerState?, OrderedMap.find?_filter, List.mem_append, List.mem_filter,
    mem_newcomers]
  by_cases hw : w ∈ members
  · cases hb : s.busy.find? w with
    | some kind => simp [hw, Option.filter]
    | none =>
      have hb : w ∉ s.busy.keys := OrderedMap.find?_eq_none_iff.1 hb
      by_cases hi : w ∈ s.idle <;> simp [hw, hb, hi]
  · cases s.busy.find? w <;> simp [hw]

theorem Whole.followed (h : Whole s) (members : List WorkerName) :
    Followed s members (s.syncWorkers members).1 (s.syncWorkers members).2 := by
  obtain ⟨hm, hen⟩ := manned_syncWorkers h.manned members
  have heq := syncWorkers_eq h.manned members
  have hfind : ∀ n a, (s.syncWorkers members).1.inFlight.find? n = some a ↔
      s.inFlight.find? n = some a ∧ a.worker ∈ members := by
    intro n a
    simp [heq, OrderedMap.find?_filter, Option.filter_eq_some_iff]
  have horphans : (s.syncWorkers members).2 =
      s.inFlight.values.filter fun a => a.worker ∉ members := by rw [heq]
  refine ⟨hen, ⟨hm.idle_nodup, hm.apart⟩, workerState?_syncWorkers h.manned members, ?_,
    by rw [heq], by rw [heq], by rw [heq], horphans, ?_, ?_, pending_syncWorkers s members,
    syncWorkers_again h.manned members⟩
  · intro w hw kind hb
    obtain ⟨n, a, ha, rfl, hkind⟩ := h.posted w kind hb
    exact ⟨n, a, rfl, hkind, ha, (hfind n a).2 ⟨ha, hw⟩⟩
  · rw [horphans]
    exact (nodup_inFlight h.keyed).sublist (List.filter_sublist.map _)
  · intro a ha
    rw [horphans, List.mem_filter, decide_eq_true_eq] at ha
    obtain ⟨n, hn⟩ := OrderedMap.mem_values_iff.1 ha.1
    have hname : a.task.name = n := h.keyed n a (OrderedMap.mem_entries_iff.2 hn)
    rw [hname, Option.eq_none_iff_forall_ne_some]
    intro b hb
    obtain ⟨hb, hmember⟩ := (hfind n b).1 hb
    cases hn.symm.trans hb
    exact ha.2 hmember

/-! ## Any operations -/

/-- No task is added under the name of one that waits or runs. Dispatch passes may fail. -/
def admits (s : Schedule) : Operation → Bool
  | .enqueue t => !s.hasTask t.name
  | _ => true

/-- The names of the tasks that wait or run are distinct all through the run. -/
def distinct (reducingFirst : Bool) : List Operation → Bool
  | [] => true
  | op :: past => (after reducingFirst past).admits op && distinct reducingFirst past

theorem whole_perform (h : Whole s) {op : Operation} (hop : s.admits op = true) :
    Whole (s.perform op) := by
  cases op with
  | dispatch f now => exact whole_pass h f now
  | enqueue t =>
    have hallows : s.allows (.enqueue t) = true := hop
    exact (perform_whole h hallows).1
  | complete | expire | abort | syncWorkers | dropExecution | retime =>
    exact (perform_whole h rfl).1

theorem whole_of_distinct {reducingFirst : Bool} {past : List Operation}
    (h : distinct reducingFirst past = true) : Whole (after reducingFirst past) := by
  induction past with
  | nil => exact whole_new reducingFirst
  | cons op past ih =>
    simp only [distinct, Bool.and_eq_true] at h
    exact whole_perform (ih h.2) h.1

/-- After any operations, whoever the members are, a schedule that follows them has exactly them for
its workers. Those that stay keep their places and their tasks, the tasks of those that left are
handed back, and to follow the same members again does nothing. -/
theorem workers_followed (reducingFirst : Bool) (past : List Operation)
    (h : distinct reducingFirst past = true) (members : List WorkerName) :
    let s := after reducingFirst past
    Followed s members (s.syncWorkers members).1 (s.syncWorkers members).2 :=
  (whole_of_distinct h).followed members

/-- Of three busy workers one stays, of two idle ones the second; another name comes twice. -/
def sampleChange : List Operation :=
  [.syncWorkers [⟨"w1"⟩, ⟨"w2"⟩, ⟨"w3"⟩, ⟨"w4"⟩, ⟨"w5"⟩], .enqueue (unit "p1"),
    .enqueue (unit "p2"), .enqueue (unit "p3"), .dispatch (.new 4) 0, .enqueue (unit "p4")].reverse
where
  unit (n : String) : Task := ⟨⟨n⟩, ⟨"s"⟩, ⟨"x"⟩, .produce 0 .nothing, 50⟩

theorem workers_followed_sample :
    let s := after true sampleChange
    let members : List WorkerName := [⟨"w6"⟩, ⟨"w5"⟩, ⟨"w7"⟩, ⟨"w6"⟩, ⟨"w2"⟩]
    let s' := (s.syncWorkers members).1
    Followed s members s' (s.syncWorkers members).2 ∧
    s'.idle = [⟨"w5"⟩, ⟨"w6"⟩, ⟨"w7"⟩] ∧ s'.busy.keys = [⟨"w2"⟩] ∧ s'.inFlight.keys = [⟨"p2"⟩] ∧
    (s.syncWorkers members).2.map (fun a => a.task.name) = [⟨"p1"⟩, ⟨"p3"⟩] :=
  ⟨workers_followed true sampleChange (by decide +kernel) _, by decide +kernel, by decide +kernel,
    by decide +kernel, by decide +kernel⟩

end Schedule
end RenderFarm
