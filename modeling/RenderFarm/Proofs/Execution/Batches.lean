import RenderFarm.Proofs.Execution.Phases
import RenderFarm.Proofs.Execution.Tries

/-!
# RenderFarm.Proofs.Execution.Batches

What the merges of an execution are made of.

* `Forms e earlier call rs`: the call forms a group of the results of producing tasks, and issues
  the first merge of it. The group is full, or it is the last one.
* `Batched e past`: every intermediate merge is of a group formed in this way. What waits has room
  in one group: whenever an execution has moved forward, less than a full group waits, and a call
  adds one result at most.
* `reductions_formed`: the shape of the merges, in every run from the start on.
-/

namespace RenderFarm
namespace Execution

/-- The intermediate merges that were issued in a run, the earliest first. -/
def intermediateTasks (e : Execution) : List Call → List Task
  | [] => []
  | call :: past =>
    e.intermediateTasks past ++ (tasksOf ((e.after past).respond call).2).filter fun t =>
      t.kind = .reducing && ((e.after (call :: past)).finalGroup? t.name).isNone

structure Forms (e : Execution) (earlier : List Call) (call : Call) (rs : List PartialResult) :
    Prop where
  issued : ∃ t ∈ tasksOf ((e.after earlier).respond call).2, t.inputs = rs
  first : ∀ t ∈ e.issued earlier, t.inputs ≠ rs
  size : rs.length ≤ e.groupSize
  /-- The inputs are of producing tasks whose success was accepted. -/
  sources : ∀ r ∈ rs, r.weight = 1 ∧ r.task ∈ e.made (call :: earlier) ∧
    ∃ t ∈ e.issued (call :: earlier), t.name = r.task ∧ t.kind = .producing
  short : rs.length < e.groupSize → (e.after (call :: earlier)).producing = [] ∧
    (e.after (call :: earlier)).target ≤ (e.after (call :: earlier)).finished

structure Batched (e : Execution) (past : List Call) : Prop where
  waiting : ∀ r ∈ (e.after past).unreduced, r.weight = 1 ∧ r.task ∈ e.made past
  groups : ∀ n g, (e.after past).merging.find? n = some g →
    ∃ call earlier, call :: earlier <:+ past ∧ Forms e earlier call g.inputs
  tasks : ∀ t ∈ e.intermediateTasks past,
    ∃ call earlier, call :: earlier <:+ past ∧ Forms e earlier call t.inputs

variable {e e' : Execution} {n : TaskName} {g : MergeGroup} {ts : List Task} {t : Task}
  {ended : List TaskName} {call : Call} {lost missed : Nat} {change : Execution × List Action}
  {next : Option Context} {r : PartialResult}

/-! ## One call -/

theorem Step.unreduced (hstep : Step e call lost missed ended change next) :
    change.1.unreduced = e.unreduced ∨
    ∃ r, change.1.unreduced = e.unreduced ++ [r] ∧ r.weight = 1 ∧ r.task ∈ e.madeBy call := by
  cases hstep with
  | @produced c _ ht hp =>
    refine .inr ⟨c.output 1, rfl, rfl, ?_⟩
    rw [madeBy_produced ht hp]
    exact List.mem_singleton_self _
  | _ => exact .inl rfl

/-- A group that is outstanding after a change was so before it, under this name or another. -/
theorem Step.merging_inputs (hstep : Step e call lost missed ended change next)
    (h : change.1.merging.find? n = some g) :
    ∃ n' g', e.merging.find? n' = some g' ∧ g'.inputs = g.inputs := by
  cases hstep with
  | merged | abandoned => exact ⟨n, g, OrderedMap.find?_of_erase h, rfl⟩
  | @retried task _ _ g' _ _ hg =>
    simp only [OrderedMap.find?_insert] at h
    split at h
    · cases h
      exact ⟨task, g', hg, rfl⟩
    · exact ⟨n, g, OrderedMap.find?_of_erase h, rfl⟩
  | _ => exact ⟨n, g, h, rfl⟩

theorem Issues.unreduced (hi : Issues e ts e') : ∀ r ∈ e'.unreduced, r ∈ e.unreduced := by
  induction hi with
  | nothing | last | produce => exact fun _ hr => hr
  | merge _ _ _ ih => exact fun r hr => absurd (ih r hr) List.not_mem_nil

theorem Issues.producingDone (hi : Issues e ts e') (h : e.producingDone = true) :
    e'.producingDone = true := by
  induction hi with
  | nothing | last => exact h
  | merge _ _ _ ih => exact ih h
  | @produce e n _ hle =>
    obtain ⟨ht, hp⟩ := producingDone_iff.1 h
    have hn : n = 0 := by omega
    exact producingDone_iff.2 ⟨ht, by simp [startProducing, hp, hn]⟩

theorem unreduced_of_advance {ctx : Context} (hr : r ∈ (e.advance ctx).1.unreduced) :
    r ∈ e.unreduced := by
  rcases advance_issues e ctx with ⟨reason, ha⟩ | ⟨ts, e', ha, hi⟩
  · rw [ha] at hr
    exact hr
  · rw [ha] at hr
    exact hi.unreduced r hr

theorem producingDone_advance (h : e.producingDone = true) (ctx : Context) :
    (e.advance ctx).1.producingDone = true := by
  rcases advance_issues e ctx with ⟨reason, ha⟩ | ⟨ts, e', ha, hi⟩
  · rw [ha]
    exact h
  · rw [ha]
    exact hi.producingDone h

theorem merging_advance (e : Execution) (ctx : Context) :
    (e.advance ctx).1.merging = e.merging ∨
    (e.advance ctx).1.merging = e.mergeWaiting.1.merging := by
  simp only [advance]
  split
  · exact .inl rfl
  split
  · exact .inl rfl
  split
  · exact .inl rfl
  refine .inr ?_
  split
  · split <;> rfl
  · rfl

/-- An execution that moves forward forms one group at most: of all that waits, if this fills a
group or no more will come. -/
theorem merging_of_advance {ctx : Context} (hg : (e.advance ctx).1.merging.find? n = some g) :
    e.merging.find? n = some g ∨ g.inputs = e.unreduced ∧ e.unreduced ≠ [] ∧
      (e.unreduced.length < e.groupSize → e.producingDone = true) := by
  rcases merging_advance e ctx with hsame | hwaiting
  · rw [hsame] at hg
    exact .inl hg
  rw [hwaiting] at hg
  rcases mergeWaiting_cases e with ⟨hw, _⟩ | ⟨hw, hne, hfull⟩
  · rw [hw] at hg
    exact .inl hg
  · simp only [hw, withMerge, OrderedMap.find?_insert] at hg
    split at hg
    · cases hg
      exact .inr ⟨rfl, hne, hfull⟩
    · exact .inl hg

/-! ## Runs -/

section Call

variable {past : List Call} {ctx : Context} (hb : Batched e past)

include hb

theorem Batched.step_waiting
    (hstep : Step (e.after past) call lost missed ended change next) :
    ∀ r ∈ change.1.unreduced, r.weight = 1 ∧ r.task ∈ e.made (call :: past) := by
  have hbefore : ∀ r ∈ (e.after past).unreduced, r.weight = 1 ∧ r.task ∈ e.made (call :: past) :=
    fun r hr => (hb.waiting r hr).imp_right fun hmade => List.mem_append_left _ hmade
  rcases hstep.unreduced with hsame | ⟨r, hnew, hw, hmade⟩
  · rwa [hsame]
  · rw [hnew]
    simp only [List.forall_mem_append, List.forall_mem_singleton]
    exact ⟨hbefore, hw, List.mem_append_right _ hmade⟩

theorem Batched.step_groups (hstep : Step (e.after past) call lost missed ended change next)
    (hg : change.1.merging.find? n = some g) :
    ∃ call' earlier, call' :: earlier <:+ call :: past ∧ Forms e earlier call' g.inputs := by
  obtain ⟨n', g', hg', hinputs⟩ := hstep.merging_inputs hg
  obtain ⟨call', earlier, hsuffix, hforms⟩ := hb.groups n' g' hg'
  exact ⟨call', earlier, hsuffix.trans (List.suffix_cons call past), hinputs ▸ hforms⟩

variable (hs : Sound e) (hf : Filed (e.after past))
  (htried : Tried (e.issued past) (e.failedTasks past) (e.after past)) (hnone : e.producing = [])
  (hwait : (e.after past).isTerminal = false → (e.after past).unreduced.length < e.groupSize)

include hs hf htried hnone hwait

theorem Batched.forms
    (hstep : Step (e.after past) call lost missed ((e.after past).overBy call) change (some ctx))
    (heq : (e.after past).respond call = proceed change (some ctx))
    (hg : (e.after (call :: past)).merging.find? n = some g)
    (hinputs : g.inputs = change.1.unreduced) (hne : change.1.unreduced ≠ [])
    (hfull : change.1.unreduced.length < change.1.groupSize → change.1.producingDone = true) :
    Forms e past call g.inputs := by
  have hs' := after_sound hs past
  have hsize : change.1.groupSize = e.groupSize :=
    ((after_terms hs past).trans (hstep.accounts hs').terms).groupSize
  have hfirst : ∀ t ∈ e.issued past, t.inputs ≠ g.inputs := by
    intro t ht
    have huntaken := (hstep.tried hs' hf htried).untaken t (List.mem_append_left _ ht)
    rw [untaken, List.map_append] at huntaken
    rw [hinputs]
    exact Task.inputs_ne (List.disjoint_append_right.1 huntaken).1 hne
  refine ⟨?issued, hfirst, ?size, fun r hr => ?sources, fun hlt => ?short⟩
  case issued =>
    -- the task is among those of the run, and not among the earlier ones
    obtain ⟨_, htries, _⟩ := (respond_tried hs' hf htried call).tries n g (.inl hg)
    have hpos := Nat.lt_of_lt_of_eq (Nat.succ_pos g.attempts) htries.symm
    obtain ⟨t, ht, hsame⟩ := List.countP_pos_iff.1 hpos
    have hsame : t.inputs = g.inputs := by simpa using hsame
    exact ⟨t, (List.mem_append.1 ht).resolve_left fun ht => hfirst t ht hsame, hsame⟩
  case size =>
    have hlt := hwait hstep.running_before
    rw [hinputs]
    rcases hstep.unreduced with hsame | ⟨r, hnew, _⟩
    · rw [hsame]
      exact Nat.le_of_lt hlt
    · rw [hnew, List.length_append]
      exact hlt
  case sources =>
    obtain ⟨hw, hmade⟩ := hb.step_waiting hstep r (hinputs ▸ hr)
    exact ⟨hw, hmade, made_issued hnone (call :: past) hmade⟩
  case short =>
    rw [hinputs, ← hsize] at hlt
    have hdone := producingDone_iff.1 (producingDone_advance (hfull hlt) ctx)
    rw [after, heq]
    exact ⟨hdone.2, hdone.1⟩

theorem Batched.respond (call : Call) : Batched e (call :: past) := by
  have hs' := after_sound hs past
  obtain ⟨change, next, hstep, heq⟩ := respond_step (e.after past) call
  have hgroups : ∀ n g, (e.after (call :: past)).merging.find? n = some g →
      ∃ call' earlier, call' :: earlier <:+ call :: past ∧ Forms e earlier call' g.inputs := by
    intro n g hg
    have hafter := hg
    rw [after, heq] at hg
    cases next with
    | none => exact hb.step_groups hstep hg
    | some ctx =>
      rcases merging_of_advance hg with hg | ⟨hinputs, hne, hfull⟩
      · exact hb.step_groups hstep hg
      · exact ⟨call, past, List.suffix_refl _,
          hb.forms hs hf htried hnone hwait hstep heq hafter hinputs hne hfull⟩
  refine ⟨fun r hr => ?_, hgroups, ?_⟩
  · rw [after, heq] at hr
    cases next with
    | none => exact hb.step_waiting hstep r hr
    | some ctx => exact hb.step_waiting hstep r (unreduced_of_advance hr)
  · refine List.forall_mem_append.2 ⟨fun t ht => ?_, fun t ht => ?_⟩
    · obtain ⟨call', earlier, hsuffix, hforms⟩ := hb.tasks t ht
      exact ⟨call', earlier, hsuffix.trans (List.suffix_cons call past), hforms⟩
    · obtain ⟨ht, hkind⟩ := List.mem_filter.1 ht
      simp only [Bool.and_eq_true, decide_eq_true_eq, Option.isNone_iff_eq_none] at hkind
      obtain ⟨g, hg, hinputs⟩ := respond_issued hs' ht (Task.work_reducing hkind.1)
      rw [← hinputs]
      refine hgroups t.name g (hg.resolve_right fun hlast => ?_)
      cases hkind.2.symm.trans (finalGroup?_eq_some.2 hlast)

end Call

/-- A merge is issued as an intermediate or as the final one. -/
theorem merges_issued (e : Execution) (past : List Call) : ∀ t ∈ e.issued past,
    t.kind = .reducing → t ∈ e.intermediateTasks past ∨ t ∈ e.lastTasks past := by
  induction past with
  | nil => exact List.forall_mem_nil _
  | cons call past ih =>
    simp only [issued, emitted, tasksOf_append] at ih ⊢
    refine List.forall_mem_append.2 ⟨fun t ht hk => ?_, fun t ht hk => ?_⟩
    · exact (ih t ht hk).imp (List.mem_append_left _) (List.mem_append_left _)
    · cases hlast : (e.after (call :: past)).finalGroup? t.name with
      | none =>
        exact .inl (List.mem_append_right _ (List.mem_filter.2 ⟨ht, by simp [hk, hlast]⟩))
      | some g => exact .inr (List.mem_append_right _ (List.mem_filter.2 ⟨ht, by simp [hlast]⟩))

/-- What is merged stands for something. -/
theorem issued_weight (policy : ExecutionPolicy) (name : ExecutionName) (session : SessionName)
    (parallel : Nat) (fetches : Bool) (now : Nat) (past : List Call) :
    ∀ t ∈ (create policy name session parallel fetches now).issued past,
      ∀ r ∈ t.inputs, 1 ≤ r.weight := by
  have hs := create_sound policy name session parallel fetches now
  have hb := create_balanced policy name session parallel fetches now
  have htraced := after_traced hs hb (create_traced policy name session parallel fetches now)
  induction past with
  | nil => exact List.forall_mem_nil _
  | cons call past ih =>
    simp only [issued, emitted, tasksOf_append] at ih ⊢
    refine List.forall_mem_append.2 ⟨ih, fun t ht r hr => ?_⟩
    cases hk : t.kind with
    | producing =>
      rw [Task.inputs_producing hk] at hr
      cases hr
    | reducing =>
      obtain ⟨g, hg, hinputs⟩ := respond_issued (after_sound hs past) ht (Task.work_reducing hk)
      obtain ⟨rest, hperm⟩ := hg.held
      rw [← hinputs] at hr
      have hheld := hperm.mem_iff.2 (List.mem_append_left rest hr)
      exact ((htraced (call :: past)).held.weight r hheld).1

/-- The shape of the merges of an execution. -/
structure Reductions (e : Execution) (past : List Call) : Prop where
  inputs : ∀ t ∈ e.issued past, t.kind = .reducing →
    t.inputs ≠ [] ∧ ∀ r ∈ t.inputs, 1 ≤ r.weight
  merges : ∀ t ∈ e.issued past, t.kind = .reducing →
    t ∈ e.intermediateTasks past ∨ t ∈ e.lastTasks past
  intermediate : ∀ t ∈ e.intermediateTasks past,
    ∃ call earlier, call :: earlier <:+ past ∧ Forms e earlier call t.inputs
  fresh : ((e.issued past).map Task.name).Nodup
  /-- Merges with an input in common are of one group; at each, those before it have failed. -/
  again : ∀ earlier, earlier <:+ past →
    (e.issued earlier).Pairwise (Again (e.failedTasks earlier))
  tries : ∀ rs, rs ≠ [] → triesOf rs (e.issued past) ≤ e.policy.reducingRetries + 1
  /-- A merge that fails is repeated exactly if the policy still allows it. -/
  repeated : ∀ n reason ctx earlier, .fail n reason ctx :: earlier <:+ past →
    (e.after earlier).isTerminal = false → ∀ g, (e.after earlier).Merges n g →
    ((∃ t ∈ tasksOf ((e.after earlier).respond (.fail n reason ctx)).2, t.inputs = g.inputs) ↔
      triesOf g.inputs (e.issued earlier) ≤ e.policy.reducingRetries)

theorem after_batched (policy : ExecutionPolicy) (name : ExecutionName) (session : SessionName)
    {parallel : Nat} (fetches : Bool) (now : Nat) (ctx : Context) (hone : 1 ≤ parallel)
    (past : List Call) :
    Batched (create policy name session parallel fetches now) (past ++ [.start ctx]) := by
  have hs := create_sound policy name session parallel fetches now
  have hf := after_filed policy name session parallel fetches now
  have htried := after_tried policy name session parallel fetches now
  induction past with
  | nil =>
    have hnone : Batched (create policy name session parallel fetches now) [] := by
      refine ⟨List.forall_mem_nil _, fun n g hg => ?_, List.forall_mem_nil _⟩
      cases hg
    exact hnone.respond hs (hf []) (htried []) rfl (fun _ => groupSize_pos _) (.start ctx)
  | cons call past ih =>
    have hrested := after_rested (create_unbegun policy name session fetches now hone)
      (create_shaped policy name session parallel fetches now) ctx past
    refine ih.respond hs (hf _) (htried _) rfl (fun ht => ?_) call
    rw [← (after_terms hs (past ++ [.start ctx])).groupSize]
    exact hrested.waiting ht

/-- From the start of an execution on, each of its merges is of something. An intermediate one is of
a full group of single units, or of the last ones. A merge is repeated as it was, under a fresh
name, when it has failed, and not more often than the policy allows. -/
theorem reductions_formed (policy : ExecutionPolicy) (name : ExecutionName)
    (session : SessionName) (parallel : Nat) (fetches : Bool) (now : Nat) (past : List Call)
    (ctx : Context) (hone : 1 ≤ parallel) :
    Reductions (create policy name session parallel fetches now) (past ++ [.start ctx]) := by
  have hs := create_sound policy name session parallel fetches now
  have hf := after_filed policy name session parallel fetches now
  have htried := after_tried policy name session parallel fetches now
  obtain ⟨_, haccounts⟩ := after_accounts hs (past ++ [.start ctx])
  refine ⟨fun t ht hk => ⟨(htried _).inputs t ht hk, issued_weight _ _ _ _ _ _ _ t ht⟩,
    merges_issued _ _, (after_batched policy name session fetches now ctx hone past).tasks,
    haccounts.names_nodup, fun earlier _ => (htried earlier).again,
    haccounts.terms.policy ▸ (htried _).bound, ?_⟩
  intro n reason ctx' earlier _ hrun g hg
  rw [← (after_terms hs earlier).policy]
  exact respond_again (after_sound hs earlier) (hf earlier) (htried earlier) hrun hg reason ctx'

/-- The calls after the start of an execution of five units: a merge of the first two fails once,
and so does the final merge. -/
def retriedRun : List Call :=
  [finish 11, fail 10, finish 9, finish 8, finish 7, finish 5, finish 4, fail 6, finish 3, finish 2,
    finish 1]
where
  ctx : Context := ⟨true, 90⟩
  finish (i : Nat) : Call := .finish ⟨.ofExecution ⟨"e"⟩ i, ⟨"w"⟩, 20, none⟩ ctx
  fail (i : Nat) : Call := .fail (.ofExecution ⟨"e"⟩ i) "killed" ctx

theorem reductions_formed_sample :
    Reductions (create sample.policy ⟨"e"⟩ ⟨"s"⟩ 5 false 0)
      (retriedRun ++ [.start retriedRun.ctx]) ∧
    ((create sample.policy ⟨"e"⟩ ⟨"s"⟩ 5 false 0).intermediateTasks
        (retriedRun ++ [.start retriedRun.ctx])).map
        (fun t => (t.name.text, t.sources.map TaskName.text)) =
      [("e-task6", ["e-task1", "e-task2"]), ("e-task7", ["e-task1", "e-task2"]),
        ("e-task8", ["e-task3", "e-task4"]), ("e-task9", ["e-task5"])] ∧
    ((create sample.policy ⟨"e"⟩ ⟨"s"⟩ 5 false 0).lastTasks
        (retriedRun ++ [.start retriedRun.ctx])).map
        (fun t => (t.name.text, t.sources.map TaskName.text)) =
      [("e-task10", ["e-task7", "e-task8", "e-task9"]),
        ("e-task11", ["e-task7", "e-task8", "e-task9"])] :=
  ⟨reductions_formed _ _ _ _ _ _ _ _ (by decide), by decide +kernel,
    by decide +kernel⟩

end Execution
end RenderFarm
