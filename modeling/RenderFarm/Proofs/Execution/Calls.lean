import RenderFarm.Execution.Step
import RenderFarm.Proofs.OrderedMap

/-!
# RenderFarm.Proofs.Execution.Calls

The runs of an execution, and what one call of a run can do.

* `after`: the execution after a list of calls, the latest call first. `after?` is the same for the
  program, which stops at a sum that is no word: what is shown of `after` is true of every run that
  the program gets through (`after?_eq_some_iff`).
* `Step`: the change that a call makes before the execution moves forward. `respond_step` says
  that a call is one of these and nothing else.
* `Issues`: the tasks that an execution issues when it moves forward. `advance_cases` says that
  it issues them, or ends in failure.

An invariant of all runs is shown on the constructors of `Step` and `Issues`; none of the proofs
after this module opens `respond` or `advance`.
-/

namespace RenderFarm
namespace Execution

/-- The execution after the calls, whatever sums they lead to; the latest call comes first. -/
def after (e : Execution) : List Call → Execution
  | [] => e
  | call :: past => ((e.after past).respond call).1

/-- The execution after the calls, if the program gets through them. -/
def after? (e : Execution) : List Call → Option Execution
  | [] => some e
  | call :: past => (e.after? past).bind fun e => (e.respond? call).map Prod.fst

/-- An execution of two units, without resources. -/
def sample : Execution :=
  create { taskTimeout := 600, minimumTimeout := 10, reducingRetries := 1, failureRatio := 0.5 }
    ⟨"e"⟩ ⟨"s"⟩ 2 false 0

/-- A run to the end: the first producing task fails, the merges report no weight. -/
def sampleRun : List Call :=
  [finish 6, finish 5, finish 4, finish 3, finish 2, .fail ⟨"e-task1"⟩ "killed" ctx,
    .start ctx]
where
  ctx : Context := ⟨true, 90⟩
  finish (i : Nat) : Call := .finish ⟨.ofExecution ⟨"e"⟩ i, ⟨"w"⟩, 20, none⟩ ctx

/-! ## What a call amounts to -/

/-- The inputs of an outstanding merge. -/
def group? (e : Execution) (task : TaskName) : Option MergeGroup :=
  (e.merging.find? task).or (e.finalGroup? task)

/-- The weight that a call finds lost: what a completed merge is credited with less than it was
given, and all of an intermediate merge that is given up. -/
def lostBy (e : Execution) : Call → Nat
  | .finish c _ =>
    if e.isTerminal || c.task ∈ e.producing then 0
    else
      match e.group? c.task with
      | some g => g.weight - creditedWeight g c.weight
      | none => 0
  | .fail task _ _ =>
    if e.isTerminal || task ∈ e.producing then 0
    else
      match e.merging.find? task with
      | some g => if g.attempts + 1 ≤ e.policy.reducingRetries then 0 else g.weight
      | none => 0
  | _ => 0

/-- One if the call is the failure of a producing task. -/
def missedBy (e : Execution) : Call → Nat
  | .fail task _ _ => if !e.isTerminal && task ∈ e.producing then 1 else 0
  | _ => 0

/-- The outstanding task whose end, good or bad, the call reports. -/
def overBy (e : Execution) : Call → List TaskName
  | .finish c _ => if !e.isTerminal && c.task ∈ e.outstanding then [c.task] else []
  | .fail task _ _ => if !e.isTerminal && task ∈ e.outstanding then [task] else []
  | _ => []

/-- Adds up over a run what each call contributes in the state that it meets. -/
def tally (f : Execution → Call → Nat) (e : Execution) : List Call → Nat
  | [] => 0
  | call :: past => e.tally f past + f (e.after past) call

/-- The total weight lost in a run. -/
def lost (e : Execution) (past : List Call) : Nat := e.tally lostBy past

/-- The producing tasks that failed in a run. -/
def missed (e : Execution) (past : List Call) : Nat := e.tally missedBy past

/-- The outstanding tasks that were reported to be over in a run. -/
def resolved (e : Execution) (past : List Call) : Nat :=
  e.tally (fun e call => (e.overBy call).length) past

/-- The producing tasks asked for in a run. -/
def wanted (e : Execution) (past : List Call) : Nat :=
  e.target + e.missed past + e.lost past

/-- The tasks among the actions, in order. -/
def tasksOf (actions : List Action) : List Task :=
  actions.filterMap fun
    | .enqueue t => some t
    | _ => none

/-- The actions of a run, the earliest first. -/
def emitted (e : Execution) : List Call → List Action
  | [] => []
  | call :: past => e.emitted past ++ ((e.after past).respond call).2

/-- The final merges that were issued in a run, the earliest first. -/
def lastTasks (e : Execution) : List Call → List Task
  | [] => []
  | call :: past =>
    e.lastTasks past ++ (tasksOf ((e.after past).respond call).2).filter fun t =>
      ((e.after (call :: past)).finalGroup? t.name).isSome

/-- What is so of each call of a run, with those before it, is so of the latest and the others. -/
theorem forall_calls_cons {P : Call → List Call → Prop} {call : Call} {past : List Call} :
    (∀ c earlier, c :: earlier <:+ call :: past → P c earlier) ↔
    P call past ∧ ∀ c earlier, c :: earlier <:+ past → P c earlier := by
  constructor
  · intro h
    exact ⟨h call past (List.suffix_refl _), fun c earlier hsuffix =>
      h c earlier (hsuffix.trans (List.suffix_cons call past))⟩
  · rintro ⟨hlatest, hothers⟩ c earlier hsuffix
    rcases List.suffix_cons_iff.1 hsuffix with heq | hsuffix
    · cases heq
      exact hlatest
    · exact hothers c earlier hsuffix

theorem forall_calls_nil {P : Call → List Call → Prop} :
    ∀ c earlier, c :: earlier <:+ [] → P c earlier := by
  intro c earlier hsuffix
  cases List.suffix_nil.1 hsuffix

/-! ## One call -/

/-- The phase once the resources of the session are on a worker. -/
def Phase.fetched : Phase → Phase
  | .fetching => .producing
  | p => p

theorem Phase.isTerminal_fetched (p : Phase) : (fetched p).isTerminal = p.isTerminal := by
  cases p <;> rfl

/-- The list of a partial result that stands for something. -/
def kept (r : PartialResult) : List PartialResult := if 0 < r.weight then [r] else []

/-- The change that a call makes at first, with the weight lost, the producing tasks failed and the
outstanding tasks that are over with it. Given a context, the execution then moves forward. -/
inductive Step (e : Execution) :
    Call → Nat → Nat → List TaskName → Execution × List Action → Option Context → Prop where
  | ignored {call : Call} : Step e call 0 0 [] (e, []) none
  | started {ctx : Context} (ht : e.isTerminal = false) :
      Step e (.start ctx) 0 0 [] (e, []) (some ctx)
  | fetched {task : TaskName} {elapsed : Nat} {ctx : Context} (ht : e.isTerminal = false)
      (hp : task ∈ e.producing) :
      Step e (.fetched task elapsed ctx) 0 0 []
        ({ e with
            phase := Phase.fetched e.phase
            times := { e.times with fetching := e.times.fetching + Word.clamp elapsed }
            overflowed := e.overflows [e.times.fetching + Word.clamp elapsed] }, []) (some ctx)
  | produced {c : Completion} {ctx : Context} (ht : e.isTerminal = false)
      (hp : c.task ∈ e.producing) :
      Step e (.finish c ctx) 0 0 [c.task]
        ({ e with
            producing := e.producing.erase c.task
            finished := e.finished + 1
            unreduced := e.unreduced ++ [c.output 1]
            phase := Phase.fetched e.phase
            times := { e.times with producing := e.times.producing + Word.clamp c.elapsed }
            timeoutAdapted := true
            producingTimeout := (e.adaptTimeout c.elapsed).1.producingTimeout
            overflowed :=
              e.overflows [e.times.producing + Word.clamp c.elapsed, e.finished + 1] },
          (e.adaptTimeout c.elapsed).2) (some ctx)
  | merged {c : Completion} {ctx : Context} {g : MergeGroup} (ht : e.isTerminal = false)
      (hp : c.task ∉ e.producing) (hg : e.merging.find? c.task = some g) :
      Step e (.finish c ctx) (g.weight - creditedWeight g c.weight) 0 [c.task]
        ({ e with
            merging := e.merging.erase c.task
            times := { e.times with reducing := e.times.reducing + Word.clamp c.elapsed }
            reduced := e.reduced ++ kept (c.output (creditedWeight g c.weight))
            target := e.target + (g.weight - creditedWeight g c.weight)
            overflowed := e.overflows [e.times.reducing + Word.clamp c.elapsed, g.weight,
              e.target + (g.weight - creditedWeight g c.weight)] }, []) (some ctx)
  | completed {c : Completion} {ctx : Context} {g : MergeGroup} (ht : e.isTerminal = false)
      (hp : c.task ∉ e.producing) (hg : e.merging.find? c.task = none)
      (hf : e.finalMerge = some (c.task, g)) (hw : creditedWeight g c.weight = g.weight) :
      Step e (.finish c ctx) 0 0 [c.task]
        ({ e with
            finalMerge := none
            times := { e.times with reducing := e.times.reducing + Word.clamp c.elapsed }
            overflowed := e.overflows [e.times.reducing + Word.clamp c.elapsed, g.weight]
          }.finishWith (c.output g.weight) ctx.now) none
  | cutShort {c : Completion} {ctx : Context} {g : MergeGroup} (ht : e.isTerminal = false)
      (hp : c.task ∉ e.producing) (hg : e.merging.find? c.task = none)
      (hf : e.finalMerge = some (c.task, g)) (hw : creditedWeight g c.weight < g.weight) :
      Step e (.finish c ctx) (g.weight - creditedWeight g c.weight) 0 [c.task]
        ({ e with
            finalMerge := none
            times := { e.times with reducing := e.times.reducing + Word.clamp c.elapsed }
            reduced := e.reduced ++ kept (c.output (creditedWeight g c.weight))
            target := e.target + (g.weight - creditedWeight g c.weight)
            phase := .producing
            overflowed := e.overflows [e.times.reducing + Word.clamp c.elapsed, g.weight,
              e.target + (g.weight - creditedWeight g c.weight)] }, []) (some ctx)
  | missed {task : TaskName} {reason : String} {ctx : Context} (ht : e.isTerminal = false)
      (hp : task ∈ e.producing) :
      Step e (.fail task reason ctx) 0 1 [task]
        ({ e with
            producing := e.producing.erase task
            finished := e.finished + 1
            failures := e.failures + 1
            target := e.target + 1
            lastFailure := some reason
            overflowed := e.overflows [e.finished + 1, e.failures + 1, e.target + 1] }, [])
        (some ctx)
  | retried {task : TaskName} {reason : String} {ctx : Context} {g : MergeGroup}
      (ht : e.isTerminal = false) (hp : task ∉ e.producing) (hg : e.merging.find? task = some g)
      (hr : g.attempts + 1 ≤ e.policy.reducingRetries) :
      Step e (.fail task reason ctx) 0 0 [task]
        ({ e with
            merging := (e.merging.erase task).insert e.freshName
              { g with attempts := g.attempts + 1 }
            nextTask := e.nextTask + 1
            lastFailure := some reason
            overflowed := e.overflows [g.attempts + 1, e.nextTask + 1] },
          [.enqueue (e.mergeTask g)]) (some ctx)
  | abandoned {task : TaskName} {reason : String} {ctx : Context} {g : MergeGroup}
      (ht : e.isTerminal = false) (hp : task ∉ e.producing) (hg : e.merging.find? task = some g)
      (hr : e.policy.reducingRetries < g.attempts + 1) :
      Step e (.fail task reason ctx) g.weight 0 [task]
        ({ e with
            merging := e.merging.erase task
            target := e.target + g.weight
            lastFailure := some reason
            overflowed := e.overflows [g.attempts + 1, g.weight, e.target + g.weight] }, [])
        (some ctx)
  | finalRetried {task : TaskName} {reason : String} {ctx : Context} {g : MergeGroup}
      (ht : e.isTerminal = false) (hp : task ∉ e.producing) (hg : e.merging.find? task = none)
      (hf : e.finalMerge = some (task, g)) (hr : g.attempts + 1 ≤ e.policy.reducingRetries) :
      Step e (.fail task reason ctx) 0 0 [task]
        ({ e with
            finalMerge := some (e.freshName, { g with attempts := g.attempts + 1 })
            nextTask := e.nextTask + 1
            overflowed := e.overflows [g.attempts + 1, e.nextTask + 1] },
          [.enqueue (e.mergeTask g)]) none
  | finalAbandoned {task : TaskName} {reason : String} {ctx : Context} {g : MergeGroup}
      (ht : e.isTerminal = false) (hp : task ∉ e.producing) (hg : e.merging.find? task = none)
      (hf : e.finalMerge = some (task, g)) (hr : e.policy.reducingRetries < g.attempts + 1) :
      Step e (.fail task reason ctx) 0 0 [task]
        ({ e with
            finalMerge := none
            overflowed := e.overflows [g.attempts + 1] }.failWith reason ctx.now) none

/-- Moves forward after the change, if there is a context for it. -/
def proceed (change : Execution × List Action) : Option Context → Execution × List Action
  | some ctx => andAdvance change ctx
  | none => change

theorem proceed_nil (e : Execution) (ctx : Context) :
    proceed (e, []) (some ctx) = e.advance ctx := by
  simp [proceed, andAdvance]

theorem leaveFetching_eq (e : Execution) :
    e.leaveFetching = { e with phase := Phase.fetched e.phase } := by
  have hphase : Phase.fetched e.phase = if e.phase = .fetching then .producing else e.phase := by
    cases e.phase <;> rfl
  rw [hphase, leaveFetching]
  split <;> rfl

theorem keepReduced_eq (e : Execution) (r : PartialResult) :
    e.keepReduced r = { e with reduced := e.reduced ++ kept r } := by
  unfold keepReduced kept
  split
  · rfl
  · simp

theorem producingFinished_eq (e : Execution) (c : Completion) :
    e.producingFinished c =
      ({ e with
          producing := e.producing.erase c.task
          finished := e.finished + 1
          unreduced := e.unreduced ++ [c.output 1]
          phase := Phase.fetched e.phase
          times := { e.times with producing := e.times.producing + Word.clamp c.elapsed }
          timeoutAdapted := true
          producingTimeout := (e.adaptTimeout c.elapsed).1.producingTimeout
          overflowed := e.overflows [e.times.producing + Word.clamp c.elapsed, e.finished + 1] },
        (e.adaptTimeout c.elapsed).2) := by
  simp only [producingFinished, leaveFetching_eq, adaptTimeout]
  split
  · rename_i h; simp only [h]
  · rfl

theorem finalGroup?_eq_some {e : Execution} {task : TaskName} {g : MergeGroup} :
    e.finalGroup? task = some g ↔ e.finalMerge = some (task, g) := by
  unfold finalGroup?
  split
  · rename_i n g' h
    rw [h]
    by_cases hn : n = task <;> simp [hn]
  · rename_i h; simp [h]

theorem group?_merging {e : Execution} {task : TaskName} {g : MergeGroup}
    (hg : e.merging.find? task = some g) : e.group? task = some g := by
  simp [group?, hg]

theorem group?_final {e : Execution} {task : TaskName} {g : MergeGroup}
    (hg : e.merging.find? task = none) (hf : e.finalMerge = some (task, g)) :
    e.group? task = some g := by
  simp [group?, hg, finalGroup?_eq_some.2 hf]

theorem mem_outstanding {e : Execution} {task : TaskName} :
    task ∈ e.outstanding ↔ task ∈ e.producing ∨ task ∈ e.merging.keys ∨
      ∃ g, e.finalMerge = some (task, g) := by
  cases h : e.finalMerge with
  | none => simp [outstanding, h]
  | some f =>
    obtain ⟨n, g⟩ := f
    simp [outstanding, h, eq_comm]

theorem creditedWeight_le (g : MergeGroup) (stated : Option Nat) :
    creditedWeight g stated ≤ g.weight :=
  Nat.min_le_right _ _

theorem mem_outstanding_of_group? {e : Execution} {task : TaskName} {g : MergeGroup}
    (h : e.group? task = some g) : task ∈ e.outstanding := by
  rcases Option.or_eq_some_iff.1 h with h | ⟨_, h⟩
  · exact mem_outstanding.2 (.inr (.inl (OrderedMap.mem_keys_iff.2 ⟨g, h⟩)))
  · exact mem_outstanding.2 (.inr (.inr ⟨g, finalGroup?_eq_some.1 h⟩))

theorem not_mem_outstanding {e : Execution} {task : TaskName} (hp : task ∉ e.producing)
    (hm : e.merging.find? task = none) (hf : e.finalGroup? task = none) :
    task ∉ e.outstanding := by
  intro h
  rcases mem_outstanding.1 h with h | h | ⟨g, h⟩
  · exact hp h
  · exact OrderedMap.find?_eq_none_iff.1 hm h
  · rw [finalGroup?_eq_some.2 h] at hf; cases hf

theorem step_finish (e : Execution) (c : Completion) (ctx : Context) :
    ∃ change next, Step e (.finish c ctx) (e.lostBy (.finish c ctx)) (e.missedBy (.finish c ctx))
      (e.overBy (.finish c ctx)) change next ∧
      e.taskFinished c ctx = proceed change next := by
  cases ht : e.isTerminal with
  | true =>
    simp only [taskFinished, lostBy, missedBy, overBy, ht, Bool.true_or, if_true, Bool.not_true,
      Bool.false_and, Bool.false_eq_true, if_false]
    exact ⟨_, none, .ignored, rfl⟩
  | false =>
  by_cases hp : c.task ∈ e.producing
  · have ho : c.task ∈ e.outstanding := mem_outstanding.2 (.inl hp)
    simp only [taskFinished, lostBy, missedBy, overBy, ht, hp, ho, decide_true, Bool.or_true,
      if_true, Bool.not_false, Bool.and_self, Bool.false_eq_true, if_false]
    exact ⟨_, some ctx, .produced ht hp, by rw [producingFinished_eq]; rfl⟩
  cases hg : e.merging.find? c.task with
  | some g =>
    have hgr := group?_merging hg
    have ho := mem_outstanding_of_group? hgr
    simp only [taskFinished, lostBy, missedBy, overBy, ht, hp, hg, ho, hgr, decide_true,
      decide_false, Bool.or_self, Bool.false_eq_true, if_false, if_true, Bool.not_false,
      Bool.and_self]
    exact ⟨_, some ctx, .merged ht hp hg, by rw [mergeFinished, keepReduced_eq]; rfl⟩
  | none =>
  cases hf : e.finalGroup? c.task with
  | some g =>
    have hgr : e.group? c.task = some g := by simp [group?, hg, hf]
    have ho := mem_outstanding_of_group? hgr
    have hfm := finalGroup?_eq_some.1 hf
    simp only [taskFinished, lostBy, missedBy, overBy, ht, hp, hg, hf, ho, hgr, decide_true,
      decide_false, Bool.or_self, Bool.false_eq_true, if_false, if_true, Bool.not_false,
      Bool.and_self, finalFinished]
    by_cases hw : creditedWeight g c.weight = g.weight
    · simp only [hw, if_true, Nat.sub_self]
      exact ⟨_, none, .completed ht hp hg hfm hw, rfl⟩
    · simp only [hw, if_false]
      have hlt := Nat.lt_of_le_of_ne (creditedWeight_le g c.weight) hw
      exact ⟨_, some ctx, .cutShort ht hp hg hfm hlt, by rw [keepReduced_eq]; rfl⟩
  | none =>
    have hgr : e.group? c.task = none := by simp [group?, hg, hf]
    have ho := not_mem_outstanding hp hg hf
    simp only [taskFinished, lostBy, missedBy, overBy, ht, hp, hg, hf, ho, hgr, decide_false,
      Bool.or_self, Bool.false_eq_true, if_false, Bool.not_false, Bool.and_false]
    exact ⟨_, none, .ignored, rfl⟩

theorem step_fail (e : Execution) (task : TaskName) (reason : String) (ctx : Context) :
    ∃ change next, Step e (.fail task reason ctx) (e.lostBy (.fail task reason ctx))
      (e.missedBy (.fail task reason ctx)) (e.overBy (.fail task reason ctx)) change next ∧
      e.taskFailed task reason ctx = proceed change next := by
  cases ht : e.isTerminal with
  | true =>
    simp only [taskFailed, lostBy, missedBy, overBy, ht, Bool.true_or, if_true, Bool.not_true,
      Bool.false_and, Bool.false_eq_true, if_false]
    exact ⟨_, none, .ignored, rfl⟩
  | false =>
  by_cases hp : task ∈ e.producing
  · have ho : task ∈ e.outstanding := mem_outstanding.2 (.inl hp)
    simp only [taskFailed, lostBy, missedBy, overBy, ht, hp, ho, decide_true, Bool.or_true,
      if_true, Bool.not_false, Bool.and_self, Bool.false_eq_true, if_false]
    exact ⟨_, some ctx, .missed ht hp, rfl⟩
  cases hg : e.merging.find? task with
  | some g =>
    have ho : task ∈ e.outstanding :=
      mem_outstanding.2 (.inr (.inl (OrderedMap.mem_keys_iff.2 ⟨g, hg⟩)))
    simp only [taskFailed, lostBy, missedBy, overBy, ht, hp, hg, ho, decide_true, decide_false,
      Bool.or_self, Bool.false_eq_true, if_false, if_true, Bool.not_false, Bool.and_self,
      Bool.and_false, mergeFailed]
    by_cases hr : g.attempts + 1 ≤ e.policy.reducingRetries
    · simp only [hr, if_true]
      exact ⟨_, some ctx, .retried ht hp hg hr, rfl⟩
    · simp only [hr, if_false]
      exact ⟨_, some ctx, .abandoned ht hp hg (Nat.lt_of_not_le hr), rfl⟩
  | none =>
  cases hf : e.finalGroup? task with
  | some g =>
    have hfm := finalGroup?_eq_some.1 hf
    have ho : task ∈ e.outstanding := mem_outstanding.2 (.inr (.inr ⟨g, hfm⟩))
    simp only [taskFailed, lostBy, missedBy, overBy, ht, hp, hg, hf, ho, decide_true,
      decide_false, Bool.or_self, Bool.false_eq_true, if_false, if_true, Bool.not_false,
      Bool.and_self, Bool.and_false, finalFailed]
    by_cases hr : g.attempts + 1 ≤ e.policy.reducingRetries
    · simp only [hr, if_true]
      exact ⟨_, none, .finalRetried ht hp hg hfm hr, rfl⟩
    · simp only [hr, if_false]
      exact ⟨_, none, .finalAbandoned ht hp hg hfm (Nat.lt_of_not_le hr), rfl⟩
  | none =>
    have ho := not_mem_outstanding hp hg hf
    simp only [taskFailed, lostBy, missedBy, overBy, ht, hp, hg, hf, ho, decide_false,
      Bool.or_self, Bool.false_eq_true, if_false, Bool.not_false, Bool.and_false]
    exact ⟨_, none, .ignored, rfl⟩

/-- A call changes an execution as one of the constructors of `Step` says, and the execution then
moves forward if that constructor gives a context. -/
theorem respond_step (e : Execution) (call : Call) :
    ∃ change next, Step e call (e.lostBy call) (e.missedBy call) (e.overBy call) change next ∧
      e.respond call = proceed change next := by
  cases call with
  | finish c ctx => exact step_finish e c ctx
  | fail task reason ctx => exact step_fail e task reason ctx
  | start ctx =>
    cases ht : e.isTerminal with
    | true => exact ⟨_, none, .ignored, by simp [respond, start, advance, ht, proceed]⟩
    | false => exact ⟨_, some ctx, .started ht, (proceed_nil _ _).symm⟩
  | fetched task elapsed ctx =>
    simp only [respond, fetchingFinished]
    split
    · exact ⟨_, none, .ignored, rfl⟩
    · rename_i h
      simp only [Bool.or_eq_true, decide_eq_true_eq, not_or, Decidable.not_not] at h
      refine ⟨_, some ctx, .fetched (by simpa using h.1) h.2, ?_⟩
      rw [proceed_nil, leaveFetching_eq]

/-- An execution moves forward only if the change has not ended it. -/
theorem Step.running {e : Execution} {call : Call} {lost missed : Nat} {ended : List TaskName}
    {change : Execution × List Action} {ctx : Context}
    (h : Step e call lost missed ended change (some ctx)) : change.1.isTerminal = false := by
  cases h with
  | started ht | merged ht | missed ht | retried ht | abandoned ht => exact ht
  | fetched ht | produced ht => exact (Phase.isTerminal_fetched e.phase).trans ht
  | cutShort => rfl

theorem Step.running_before {e : Execution} {call : Call} {lost missed : Nat}
    {ended : List TaskName} {change : Execution × List Action} {ctx : Context}
    (h : Step e call lost missed ended change (some ctx)) : e.isTerminal = false := by
  cases h <;> assumption

/-! ## Once it is over -/

variable {e : Execution}

/-- An execution that is over answers no call. -/
theorem respond_terminal (ht : e.isTerminal = true) (call : Call) : e.respond call = (e, []) := by
  cases call <;> simp [respond, start, advance, taskFinished, taskFailed, fetchingFinished, ht]

theorem lostBy_terminal (ht : e.isTerminal = true) (call : Call) : e.lostBy call = 0 := by
  cases call <;> simp [lostBy, ht]

theorem missedBy_terminal (ht : e.isTerminal = true) (call : Call) : e.missedBy call = 0 := by
  cases call <;> simp [missedBy, ht]

theorem overBy_terminal (ht : e.isTerminal = true) (call : Call) : e.overBy call = [] := by
  cases call <;> simp [overBy, ht]

end Execution
end RenderFarm
