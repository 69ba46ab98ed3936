import RenderFarm.Proofs.Coordinator.Probes

/-!
# RenderFarm.Proofs.Coordinator.Revisions

What becomes of the scheduled tasks, timeouts and sources included.

* `Revised x e e' t u`: the task `t` becomes `u` while the execution `x` goes from `e` to `e'`.
* `tell_revises`: an execution that is told something revises the tasks that are scheduled and
  issues others, and when it is over none of its own waits any longer.
* `opening_tasks`, `dispatch_tasks`: an opening only takes tasks away, a dispatch pass only places
  them.
-/

namespace RenderFarm
namespace Coordinator

open Execution (tasksOf Action Call Sound SameTiming)

def tasks (c : Coordinator) : List Task := c.schedule.tasks

inductive Revised (x : ExecutionName) (e e' : Execution) (t : Task) : Task → Prop where
  | kept (h : SameTiming e e') : Revised x e e' t t
  | retimed (hbefore : e.timeoutAdapted = false) (hafter : e'.timeoutAdapted = true) :
      Revised x e e' t (Schedule.retimed x e'.producingTimeout t)

/-- The execution `x` goes from `e` to `e'` and issues the tasks `ts`. -/
structure Revises (x : ExecutionName) (e e' : Execution) (ts : List Task) (s s' : Schedule) :
    Prop where
  pending : ∀ t ∈ s'.pending, (∃ u ∈ s.pending, Revised x e e' u t) ∨ t ∈ ts
  inFlight : ∀ n a, s'.inFlight.find? n = some a →
    ∃ b, s.inFlight.find? n = some b ∧ Revised x e e' b.task a.task
  ended : e.isTerminal = false → e'.isTerminal = true → ∀ t ∈ s'.pending, t.execution ≠ x

variable {c : Coordinator} {m : Moment} {event : Event} {now : Nat} {x : ExecutionName}
  {e e' : Execution} {call : Call} {t u : Task}

theorem Revised.same (h : Revised x e e' u t) :
    t.tag = u.tag ∧ t.session = u.session ∧ t.work = u.work ∧
      (u.execution ≠ x ∨ u.kind = .reducing → t.timeout = u.timeout) := by
  cases h with
  | kept => exact ⟨rfl, rfl, rfl, fun _ => rfl⟩
  | retimed =>
    unfold Schedule.retimed
    split
    · rename_i hx
      refine ⟨rfl, rfl, rfl, ?_⟩
      rintro (hne | hkind)
      · exact absurd hx.1 hne
      · rw [hkind] at hx
        cases hx.2
    · exact ⟨rfl, rfl, rfl, fun _ => rfl⟩

/-- A task that has the timeout of its execution has it afterwards. -/
theorem Revised.timeout (h : Revised x e e' u t) (hx : u.execution = x)
    (hp : e'.policy = e.policy) (hu : u.timeout = e.timeoutOf u.kind) :
    t.timeout = e'.timeoutOf t.kind := by
  cases h with
  | kept hsame => exact hu.trans (hsame.timeoutOf _).symm
  | retimed =>
    have hsame : ({ u with timeout := e'.producingTimeout } : Task).kind = u.kind := rfl
    unfold Schedule.retimed
    cases hkind : u.kind with
    | producing =>
      rw [if_pos ⟨hx, rfl⟩, hsame, hkind]
      rfl
    | reducing =>
      rw [if_neg (fun h => nomatch h.2), hu, hkind]
      exact congrArg ExecutionPolicy.taskTimeout hp.symm

/-! ## Notices -/

theorem pending_unadjusted (x : ExecutionName) (now : Nat) (c : Coordinator) {actions : List Action}
    (ha : ∀ a ∈ actions, a.adjusts = false) :
    ∀ t ∈ (turns (act x now) actions c).coordinator.schedule.pending,
      t ∈ c.schedule.pending ∨ t ∈ tasksOf actions := by
  induction actions generalizing c with
  | nil => exact fun t ht => .inl ht
  | cons a actions ih =>
    intro t ht
    have hsplit : tasksOf (a :: actions) = tasksOf [a] ++ tasksOf actions :=
      Execution.tasksOf_append [a] actions
    rw [hsplit, List.mem_append]
    have hrest := ih (act x now c a).coordinator (fun b hb => ha b (List.mem_cons_of_mem _ hb)) t ht
    rcases hrest with hrest | hrest
    · cases a with
      | enqueue u =>
        rcases Schedule.mem_pending_enqueue.1 hrest with hold | rfl
        · exact .inl hold
        · exact .inr (.inl List.mem_cons_self)
      | adjustTimeout => cases ha _ List.mem_cons_self
      | finish | fail => exact .inl (Schedule.mem_pending_dropExecution.1 hrest).1
    · exact .inr (.inr hrest)

/-- The end of an execution is the last thing that it announces, so all that waits is dropped. -/
theorem pending_over (ht : e.isTerminal = false) (hover : (e.respond call).1.isTerminal = true) :
    ∀ t ∈ (turns (act x now) (e.respond call).2 c).coordinator.schedule.pending,
      t.execution ≠ x := by
  intro t hmem
  rcases Execution.announces_respond ht call with ⟨hrun, _⟩ | ⟨_, front, last, hactions, hlast, _⟩
  · rw [hrun] at hover
    cases hover
  · rw [hactions, turns_append] at hmem
    simp only [turns, Turn.andThen, act_last hlast] at hmem
    exact (Schedule.mem_pending_dropExecution.1 hmem).2

theorem tell_revises (hname : e.name = x) (hs : Sound e) (he : c.executions.find? x = some e)
    (now : Nat) (call : Call) :
    Revises x e (e.respond call).1 (tasksOf (e.respond call).2) c.schedule
      (tell now c (x, call)).schedule := by
  have hname' := (Execution.respond_accounts hs call).terms.name.trans hname
  let c₁ := { c with executions := c.executions.insert x (e.respond call).1 }
  have htell : tell now c (x, call) =
      (turns (act x now) (e.respond call).2 c₁).coordinator := by
    simp only [tell, he, follow, hname', c₁]
  rw [htell]
  have hended : e.isTerminal = false → (e.respond call).1.isTerminal = true →
      ∀ t ∈ (turns (act x now) (e.respond call).2 c₁).coordinator.schedule.pending,
        t.execution ≠ x := pending_over
  have hretimed := Execution.respond_retimed e call
  generalize e.respond call = change at hretimed hended
  cases hretimed with
  | kept hsame hnone =>
    refine ⟨?_, ?_, hended⟩
    · intro t ht
      exact (pending_unadjusted x now c₁ hnone t ht).imp_left fun hold => ⟨t, hold, .kept hsame⟩
    · intro n a ha
      rw [(turns_unadjusted x now c₁ hnone).2] at ha
      exact ⟨a, ha, .kept hsame⟩
  | @adapted e' rest _ hbefore _ hafter _ _ hnone =>
    -- the timeouts are set first, and then the other actions are carried out
    let c₂ := (act x now c₁ (.adjustTimeout e'.producingTimeout)).coordinator
    refine ⟨?_, ?_, hended⟩
    · intro t ht
      rcases pending_unadjusted x now c₂ hnone t ht with hold | hissued
      · obtain ⟨u, hu, rfl⟩ := List.mem_map.1 hold
        exact .inl ⟨u, hu, .retimed hbefore hafter⟩
      · exact .inr hissued
    · intro n a ha
      have hflights := (turns_unadjusted x now c₂ hnone).2
      simp only [turns, Turn.andThen, c₂, hflights] at ha
      have ha : (c.schedule.retime x e'.producingTimeout now).1.inFlight.find? n = some a := ha
      obtain ⟨b, hb, rfl⟩ := Schedule.find?_retime ha
      exact ⟨b, hb, .retimed hbefore hafter⟩

theorem Revises.tasks {ts : List Task} {s s' : Schedule} (h : Revises x e e' ts s s') :
    ∀ t ∈ s'.tasks, (∃ u ∈ s.tasks, Revised x e e' u t) ∨ t ∈ ts := by
  intro t ht
  rcases Schedule.mem_tasks.1 ht with ht | ⟨n, a, ha, rfl⟩
  · refine (h.pending t ht).imp_left ?_
    rintro ⟨u, hu, hr⟩
    exact ⟨u, Schedule.mem_tasks.2 (.inl hu), hr⟩
  · obtain ⟨b, hb, hr⟩ := h.inFlight n a ha
    exact .inl ⟨b.task, Schedule.mem_tasks.2 (.inr ⟨n, b, hb, rfl⟩), hr⟩

/-! ## Openings and dispatch passes -/

theorem opening_tasks (c : Coordinator) (m : Moment) (event : Event) :
    ∀ t ∈ (c.opening m event).coordinator.tasks, t ∈ c.tasks := by
  intro t ht
  rcases Schedule.mem_tasks.1 ht with ht | ⟨n, a, ha, rfl⟩
  · rw [opening_pending] at ht
    exact Schedule.mem_tasks.2 (.inl ht)
  · exact Schedule.mem_tasks.2 (.inr ⟨n, a, (opening_flights c m event).2 n a ha, rfl⟩)

theorem dispatch_tasks (now : Nat) (c : Coordinator) :
    ∀ t ∈ (dispatch now c).coordinator.tasks,
      ∃ u ∈ c.tasks, ∃ work, t = { u with work } ∧ work.kind = u.kind := by
  have hd := Schedule.draws_dispatch c.schedule c.fleet now
  intro t ht
  rcases Schedule.mem_tasks.1 ht with ht | ⟨n, a, ha, rfl⟩
  · exact ⟨t, Schedule.mem_tasks.2 (.inl (hd.pending t ht)), t.work, rfl, rfl⟩
  · rcases hd.inFlight n a ha with hold | ⟨u, hu, work, htask, hkind, _⟩
    · exact ⟨a.task, Schedule.mem_tasks.2 (.inr ⟨n, a, hold, rfl⟩), a.task.work, rfl, rfl⟩
    · exact ⟨u, Schedule.mem_tasks.2 (.inl hu), work, htask, hkind⟩

end Coordinator
end RenderFarm
