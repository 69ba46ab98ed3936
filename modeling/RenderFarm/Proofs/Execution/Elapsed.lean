import Mathlib.Algebra.GroupWithZero.Nat
import Mathlib.Algebra.Order.BigOperators.Group.List
import Mathlib.Algebra.Order.Group.Nat
import RenderFarm.Proofs.Execution.Issuing

/-!
# RenderFarm.Proofs.Execution.Elapsed

The time that an execution counts for each kind of work: the sum of what the accepted reports state.

* `acceptedBy s e call`: the elapsed time that the call adds to the work `s`, if it is accepted.
* `accepted s e past`, `spent s e past`: all of these in a run, and their sum.
* `respond_times`: a call adds this and nothing else.
* `after_times`: the times of every run.
-/

namespace RenderFarm

/-- The kinds of work whose time is counted. -/
inductive Work where
  | fetching
  | producing
  | reducing
  deriving DecidableEq, Repr

def PhaseTimes.of (t : PhaseTimes) : Work → Nat
  | .fetching => t.fetching
  | .producing => t.producing
  | .reducing => t.reducing

namespace Execution

/-- The work that a completed task has been. -/
def workOf (e : Execution) (task : TaskName) : Work :=
  if task ∈ e.producing then .producing else .reducing

def acceptedBy (s : Work) (e : Execution) : Call → Option Nat
  | .fetched task elapsed _ =>
    if e.isTerminal = false ∧ task ∈ e.producing ∧ s = .fetching then some elapsed else none
  | .finish c _ =>
    if e.isTerminal = false ∧ c.task ∈ e.outstanding ∧ s = e.workOf c.task then some c.elapsed
    else none
  | _ => none

/-- The elapsed times that were accepted for the work, the earliest first. -/
def accepted (s : Work) (e : Execution) : List Call → List Nat
  | [] => []
  | call :: past => accepted s e past ++ (acceptedBy s (e.after past) call).toList

/-- The time accepted for the work; each single time is clamped to a word. -/
def spent (s : Work) (e : Execution) (past : List Call) : Nat :=
  ((accepted s e past).map Word.clamp).sum

variable {e e' : Execution} {call : Call} {s : Work}

/-! ## One call -/

theorem Issues.times {ts : List Task} (h : Issues e ts e') : e'.times = e.times := by
  induction h with
  | nothing | last | produce => rfl
  | merge _ _ _ ih => exact ih

/-- To move forward takes no time, but for the total once it is over. -/
theorem advance_times (e : Execution) (ctx : Context) (s : Work) :
    (e.advance ctx).1.times.of s = e.times.of s := by
  rcases advance_issues e ctx with ⟨reason, ha⟩ | ⟨ts, e', ha, hi⟩
  · rw [ha]
    cases s <;> rfl
  · rw [ha, hi.times]

theorem proceed_times (change : Execution × List Action) (next : Option Context) (s : Work) :
    (proceed change next).1.times.of s = change.1.times.of s := by
  cases next with
  | none => rfl
  | some ctx => exact advance_times change.1 ctx s

/-- The time that one call adds. -/
def added (accepted : Option Nat) : Nat := (accepted.map Word.clamp).getD 0

theorem acceptedBy_finish {c : Completion} {ctx : Context} (ht : e.isTerminal = false)
    (ho : c.task ∈ e.outstanding) :
    acceptedBy s e (.finish c ctx) = if s = e.workOf c.task then some c.elapsed else none := by
  simp only [acceptedBy, ht, ho, true_and]

theorem workOf_producing {task : TaskName} (hp : task ∈ e.producing) :
    e.workOf task = .producing :=
  if_pos hp

theorem workOf_reducing {task : TaskName} (hp : task ∉ e.producing) : e.workOf task = .reducing :=
  if_neg hp

theorem finish_times {lost missed : Nat} {change : Execution × List Action}
    {next : Option Context} {c : Completion} {ctx : Context}
    (hstep : Step e (.finish c ctx) lost missed (e.overBy (.finish c ctx)) change next) (s : Work) :
    change.1.times.of s = e.times.of s + added (acceptedBy s e (.finish c ctx)) := by
  generalize hended : e.overBy (.finish c ctx) = ended at hstep
  cases hstep with
  | ignored =>
    have hnone : acceptedBy s e (.finish c ctx) = none := by
      refine if_neg ?_
      rintro ⟨ht, ho, _⟩
      simp [overBy, ht, ho] at hended
    rw [hnone]
    rfl
  | produced ht hp =>
    rw [acceptedBy_finish ht (mem_outstanding.2 (.inl hp)), workOf_producing hp]
    cases s <;> rfl
  | merged ht hp hg =>
    rw [acceptedBy_finish ht (mem_outstanding_of_group? (group?_merging hg)), workOf_reducing hp]
    cases s <;> rfl
  | completed ht hp hg hf | cutShort ht hp hg hf =>
    rw [acceptedBy_finish ht (mem_outstanding_of_group? (group?_final hg hf)), workOf_reducing hp]
    cases s <;> rfl

/-- A failure takes no time. -/
theorem fail_times {lost missed : Nat} {ended : List TaskName} {change : Execution × List Action}
    {next : Option Context} {task : TaskName} {reason : String} {ctx : Context}
    (hstep : Step e (.fail task reason ctx) lost missed ended change next) (s : Work) :
    change.1.times.of s = e.times.of s := by
  cases hstep with
  | finalAbandoned => cases s <;> rfl
  | ignored | missed | retried | abandoned | finalRetried => rfl

/-- A call adds what is accepted of it to the time of its work, and nothing else. -/
theorem respond_times (e : Execution) (call : Call) (s : Work) :
    (e.respond call).1.times.of s = e.times.of s + added (acceptedBy s e call) := by
  cases call with
  | start ctx => exact advance_times e ctx s
  | finish c ctx =>
    obtain ⟨change, next, hstep, heq⟩ := respond_step e (.finish c ctx)
    rw [heq, proceed_times, finish_times hstep]
  | fail task reason ctx =>
    obtain ⟨change, next, hstep, heq⟩ := respond_step e (.fail task reason ctx)
    rw [heq, proceed_times, fail_times hstep]
    rfl
  | fetched task elapsed ctx =>
    simp only [respond, fetchingFinished, acceptedBy]
    by_cases h : e.isTerminal = false ∧ task ∈ e.producing
    · simp only [h.1, h.2, not_true, decide_false, Bool.or_self, Bool.false_eq_true, if_false,
        true_and, leaveFetching_eq, advance_times]
      cases s <;> rfl
    · have hignored : (e.isTerminal || decide (task ∉ e.producing)) = true := by
        simpa [Classical.or_iff_not_imp_left] using h
      rw [if_pos hignored, if_neg fun hs => h ⟨hs.1, hs.2.1⟩]
      rfl

/-! ## Runs -/

theorem spent_cons (s : Work) (e : Execution) (call : Call) (past : List Call) :
    spent s e (call :: past) = spent s e past + added (acceptedBy s (e.after past) call) := by
  simp only [spent, accepted, List.map_append, List.sum_append, added]
  cases acceptedBy s (e.after past) call <;> simp

/-- The time of each kind of work is the sum of what was accepted for it. -/
theorem after_times (he : ∀ s, e.times.of s = 0) (past : List Call) (s : Work) :
    (e.after past).times.of s = spent s e past := by
  induction past with
  | nil => exact he s
  | cons call past ih => rw [after, respond_times, ih, spent_cons]

/-- A time that is a word is its own clamp. -/
theorem clamp_le_spent {past : List Call} {elapsed : Nat} (h : elapsed ∈ accepted s e past) :
    Word.clamp elapsed ≤ spent s e past :=
  List.le_sum_of_mem (List.mem_map_of_mem h)

theorem create_times (policy : ExecutionPolicy) (name : ExecutionName) (session : SessionName)
    (parallel : Nat) (fetches : Bool) (now : Nat) (s : Work) :
    (create policy name session parallel fetches now).times.of s = 0 := by
  cases s <;> rfl

end Execution
end RenderFarm
