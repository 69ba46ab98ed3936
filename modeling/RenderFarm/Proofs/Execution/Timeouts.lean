import RenderFarm.Proofs.Execution.Accounts
import RenderFarm.Proofs.Schedule.Tasks

/-!
# RenderFarm.Proofs.Execution.Timeouts

The time that an execution gives its tasks.

* `successBy e call`: the elapsed time that is reported of a producing task, if the report counts.
* `Retimed e call change`: a change adjusts the timeout first of all and only with the first
  success, or it leaves the timeout as it is.
* `Fresh e t`: the task is as the execution issues it.
* `respond_retimed`, `respond_fresh`: this is so of every call.
-/

namespace RenderFarm
namespace Execution

def Action.adjusts : Action → Bool
  | .adjustTimeout _ => true
  | _ => false

/-- The new timeouts among the actions. -/
def timeoutsOf (actions : List Action) : List Nat :=
  actions.filterMap fun
    | .adjustTimeout timeout => some timeout
    | _ => none

theorem timeoutsOf_unadjusted {actions : List Action} (h : ∀ a ∈ actions, a.adjusts = false) :
    timeoutsOf actions = [] := by
  refine List.filterMap_eq_nil_iff.2 ?_
  intro a ha
  cases a with
  | adjustTimeout => cases h _ ha
  | enqueue | finish | fail => rfl

def timeoutOf (e : Execution) : TaskKind → Nat
  | .producing => e.producingTimeout
  | .reducing => e.policy.taskTimeout

/-- The elapsed time of the producing task whose success the call reports. -/
def successBy (e : Execution) : Call → Option Nat
  | .finish c _ => if e.isTerminal = false ∧ c.task ∈ e.producing then some c.elapsed else none
  | _ => none

def Fresh (e : Execution) (t : Task) : Prop := t.timeout = e.timeoutOf t.kind ∧ t.Unplaced

structure SameTiming (e e' : Execution) : Prop where
  policy : e'.policy = e.policy
  timeout : e'.producingTimeout = e.producingTimeout
  adapted : e'.timeoutAdapted = e.timeoutAdapted

variable {e e' : Execution} {call : Call} {ts : List Task} {t : Task}

theorem SameTiming.refl (e : Execution) : SameTiming e e := ⟨rfl, rfl, rfl⟩

theorem SameTiming.timeoutOf (h : SameTiming e e') (kind : TaskKind) :
    e'.timeoutOf kind = e.timeoutOf kind := by
  cases kind with
  | producing => exact h.timeout
  | reducing => exact congrArg ExecutionPolicy.taskTimeout h.policy

theorem SameTiming.fresh (h : SameTiming e e') (ht : Fresh e t) : Fresh e' t :=
  ⟨ht.1.trans (h.timeoutOf t.kind).symm, ht.2⟩

/-! ## Moving forward -/

theorem fresh_mergeTask (e : Execution) (g : MergeGroup) : Fresh e (e.mergeTask g) :=
  ⟨rfl, nofun⟩

theorem fresh_producingTask (e : Execution) (i : Nat) : Fresh e (e.producingTask i) := by
  refine ⟨rfl, ?_⟩
  intro seed w
  simp only [producingTask]
  split <;> simp

theorem Issues.timing (h : Issues e ts e') : SameTiming e e' ∧ ∀ t ∈ ts, Fresh e t := by
  induction h with
  | nothing => exact ⟨.refl _, nofun⟩
  | @merge e e' ts _ _ _ ih =>
    obtain ⟨htiming, hfresh⟩ := ih
    have hback : SameTiming e.withMerge e := ⟨rfl, rfl, rfl⟩
    refine ⟨⟨htiming.policy, htiming.timeout, htiming.adapted⟩, ?_⟩
    intro t ht
    rcases List.mem_cons.1 ht with rfl | ht
    · exact fresh_mergeTask e _
    · exact hback.fresh (hfresh t ht)
  | @last e =>
    refine ⟨⟨rfl, rfl, rfl⟩, ?_⟩
    intro t ht
    cases List.mem_singleton.1 ht
    exact fresh_mergeTask e _
  | @produce e =>
    refine ⟨⟨rfl, rfl, rfl⟩, ?_⟩
    intro t ht
    obtain ⟨i, _, rfl⟩ := List.mem_map.1 ht
    exact fresh_producingTask e i

/-- To move forward adjusts nothing. -/
theorem advance_timing (e : Execution) (ctx : Context) :
    SameTiming e (e.advance ctx).1 ∧ (∀ a ∈ (e.advance ctx).2, a.adjusts = false) ∧
    ∀ t ∈ tasksOf (e.advance ctx).2, Fresh (e.advance ctx).1 t := by
  rcases advance_issues e ctx with ⟨reason, ha⟩ | ⟨ts, e', ha, hi⟩
  · rw [ha]
    exact ⟨⟨rfl, rfl, rfl⟩, by simp [failWith, Action.adjusts], by simp [failWith, tasksOf]⟩
  · obtain ⟨htiming, hfresh⟩ := hi.timing
    rw [ha, tasksOf_enqueue]
    exact ⟨htiming, by simp [Action.adjusts], fun t ht => htiming.fresh (hfresh t ht)⟩

/-! ## Calls -/

inductive Retimed (e : Execution) (call : Call) : Execution × List Action → Prop where
  | kept {e' : Execution} {actions : List Action} (h : SameTiming e e')
      (hnone : ∀ a ∈ actions, a.adjusts = false)
      (hs : e.timeoutAdapted = true ∨ e.successBy call = none) : Retimed e call (e', actions)
  | adapted {e' : Execution} {rest : List Action} {elapsed : Nat}
      (hbefore : e.timeoutAdapted = false) (hs : e.successBy call = some elapsed)
      (hafter : e'.timeoutAdapted = true) (hpolicy : e'.policy = e.policy)
      (htimeout : e'.producingTimeout = max (2 * elapsed) e.policy.minimumTimeout)
      (hnone : ∀ a ∈ rest, a.adjusts = false) :
      Retimed e call (e', .adjustTimeout e'.producingTimeout :: rest)

theorem Retimed.proceed {change : Execution × List Action} (h : Retimed e call change)
    (ctx : Context) : Retimed e call (andAdvance change ctx) := by
  obtain ⟨hsame, hlater, _⟩ := advance_timing change.1 ctx
  cases h with
  | @kept e' actions h hnone hs =>
    refine .kept ⟨hsame.policy.trans h.policy, hsame.timeout.trans h.timeout,
      hsame.adapted.trans h.adapted⟩ ?_ hs
    intro a ha
    rcases List.mem_append.1 ha with ha | ha
    · exact hnone a ha
    · exact hlater a ha
  | @adapted e' rest elapsed hbefore hs hafter hpolicy htimeout hnone =>
    have hactions : (andAdvance (e', .adjustTimeout e'.producingTimeout :: rest) ctx) =
        ((e'.advance ctx).1,
          .adjustTimeout (e'.advance ctx).1.producingTimeout :: (rest ++ (e'.advance ctx).2)) := by
      rw [hsame.timeout]
      rfl
    rw [hactions]
    refine .adapted hbefore hs (hsame.adapted.trans hafter) (hsame.policy.trans hpolicy)
      (hsame.timeout.trans htimeout) ?_
    intro a ha
    rcases List.mem_append.1 ha with ha | ha
    · exact hnone a ha
    · exact hlater a ha

/-- A call that leaves all outstanding tasks outstanding reports no success that counts. -/
theorem successBy_none (h : e.overBy call = []) : e.successBy call = none := by
  cases call with
  | finish c ctx =>
    simp only [overBy, successBy] at h ⊢
    rw [if_neg]
    rintro ⟨ht, hp⟩
    simp [ht, mem_outstanding.2 (.inl hp)] at h
  | start | fail | fetched => rfl

theorem Step.retimed {lost missed : Nat} {ended : List TaskName}
    {change : Execution × List Action} {next : Option Context}
    (hstep : Step e call lost missed ended change next) (hover : ended = e.overBy call) :
    Retimed e call change ∧ ∀ t ∈ tasksOf change.2, Fresh change.1 t := by
  cases hstep with
  | ignored =>
    exact ⟨.kept (.refl e) (List.forall_mem_nil _) (.inr (successBy_none hover.symm)),
      List.forall_mem_nil _⟩
  | started | fetched | missed | abandoned =>
    exact ⟨.kept ⟨rfl, rfl, rfl⟩ (List.forall_mem_nil _) (.inr rfl), List.forall_mem_nil _⟩
  | @produced c ctx ht hp =>
    rw [tasksOf_adaptTimeout]
    refine ⟨?_, List.forall_mem_nil _⟩
    cases hadapted : e.timeoutAdapted with
    | true =>
      simp only [adaptTimeout, hadapted, if_true]
      exact .kept ⟨rfl, rfl, hadapted.symm⟩ (List.forall_mem_nil _) (.inl hadapted)
    | false =>
      simp only [adaptTimeout, hadapted, Bool.false_eq_true, if_false]
      exact .adapted hadapted (if_pos ⟨ht, hp⟩) rfl rfl rfl (List.forall_mem_nil _)
  | merged ht hp | cutShort ht hp =>
    exact ⟨.kept ⟨rfl, rfl, rfl⟩ (List.forall_mem_nil _) (.inr (if_neg fun h => hp h.2)),
      List.forall_mem_nil _⟩
  | completed ht hp =>
    refine ⟨.kept ⟨rfl, rfl, rfl⟩ ?_ (.inr (if_neg fun h => hp h.2)), List.forall_mem_nil _⟩
    simp [Action.adjusts]
  | @retried _ _ _ g =>
    refine ⟨.kept ⟨rfl, rfl, rfl⟩ (by simp [Action.adjusts]) (.inr rfl), ?_⟩
    intro t ht
    cases List.mem_singleton.1 ht
    exact fresh_mergeTask e g
  | @finalRetried _ _ _ g =>
    refine ⟨.kept ⟨rfl, rfl, rfl⟩ (by simp [Action.adjusts]) (.inr rfl), ?_⟩
    intro t ht
    cases List.mem_singleton.1 ht
    exact fresh_mergeTask e g
  | finalAbandoned =>
    exact ⟨.kept ⟨rfl, rfl, rfl⟩ (by simp [Action.adjusts]) (.inr rfl), List.forall_mem_nil _⟩

/-- A call adjusts the timeout first of all, and only if it reports the first success. -/
theorem respond_retimed (e : Execution) (call : Call) : Retimed e call (e.respond call) := by
  obtain ⟨change, next, hstep, heq⟩ := respond_step e call
  have hchange := (hstep.retimed rfl).1
  rw [heq]
  cases next with
  | none => exact hchange
  | some ctx => exact hchange.proceed ctx

theorem respond_fresh (e : Execution) (call : Call) :
    ∀ t ∈ tasksOf (e.respond call).2, Fresh (e.respond call).1 t := by
  obtain ⟨change, next, hstep, heq⟩ := respond_step e call
  have hchange := (hstep.retimed rfl).2
  rw [heq]
  cases next with
  | none => exact hchange
  | some ctx =>
    obtain ⟨hsame, _, hlater⟩ := advance_timing change.1 ctx
    intro t ht
    rw [proceed, andAdvance, tasksOf_append, List.mem_append] at ht
    rcases ht with ht | ht
    · exact hsame.fresh (hchange t ht)
    · exact hlater t ht

end Execution
end RenderFarm
