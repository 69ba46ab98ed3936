import RenderFarm.Proofs.Execution.Holdings

/-!
# RenderFarm.Proofs.Execution.Records

The results that an execution has on record, and the reports that they come of.

* `recorded? e c`: the partial result that a completion is taken for.
* `Retired e n`: the task was issued and is over.
* `respond_recorded`: what is held after a call was held before, or the call has recorded it.
* `Filed e`: no task has two results on record, and all that have one are over.
* `respond_finished`: an execution finishes with the completion of its final merge.
-/

namespace RenderFarm
namespace Execution

/-- What the execution takes the completion for, if it is of a task that it waits for. -/
def recorded? (e : Execution) (c : Completion) : Option PartialResult :=
  if e.isTerminal then none
  else if c.task ∈ e.producing then some (c.output 1)
  else (e.group? c.task).map fun g => c.output (creditedWeight g c.weight)

/-- The call reports a completion that the execution takes for the result. -/
inductive Records (e : Execution) : Call → PartialResult → Prop where
  | mk {c : Completion} {ctx : Context} {r : PartialResult} (h : e.recorded? c = some r) :
      Records e (.finish c ctx) r

variable {e e' : Execution} {call : Call} {lost missed : Nat} {ended : List TaskName}
  {change : Execution × List Action} {next : Option Context} {c : Completion} {r : PartialResult}
  {n : TaskName} {g : MergeGroup} {ts : List Task}

theorem recorded?_produced (ht : e.isTerminal = false) (hp : c.task ∈ e.producing) :
    e.recorded? c = some (c.output 1) := by
  simp [recorded?, ht, hp]

theorem recorded?_merged (ht : e.isTerminal = false) (hp : c.task ∉ e.producing)
    (hg : e.group? c.task = some g) :
    e.recorded? c = some (c.output (creditedWeight g c.weight)) := by
  simp [recorded?, ht, hp, hg]

/-- Of a task that the execution waits for, and with the worker that has reported. -/
theorem recorded?_eq_some (h : e.recorded? c = some r) :
    e.isTerminal = false ∧ c.task ∈ e.outstanding ∧ r.task = c.task ∧ r.worker = c.worker := by
  unfold recorded? at h
  split at h
  · cases h
  · rename_i ht
    split at h
    · rename_i hp
      cases h
      exact ⟨by simpa using ht, mem_outstanding.2 (.inl hp), rfl, rfl⟩
    · obtain ⟨g, hg, rfl⟩ := Option.map_eq_some_iff.1 h
      exact ⟨by simpa using ht, mem_outstanding_of_group? hg, rfl, rfl⟩

theorem Records.over (h : Records e call r) : r.task ∈ e.overBy call := by
  cases h with
  | mk h =>
    obtain ⟨ht, hout, htask, _⟩ := recorded?_eq_some h
    simp [overBy, ht, hout, htask]

/-! ## Tasks that are over -/

/-- A task of the execution that is over. -/
def Retired (e : Execution) (n : TaskName) : Prop :=
  n ∉ e.outstanding ∧ ∃ k < e.nextTask, n = .ofExecution e.name k

theorem Retired.of_accounts (ha : Accounts e ended ts e') (h : Retired e n) : Retired e' n := by
  obtain ⟨hout, k, hk, rfl⟩ := h
  refine ⟨fun hn => ?_, k, ?_, by rw [ha.terms.name]⟩
  · rcases List.mem_append.1 (ha.outstanding.mem_iff.1 (List.mem_append_right _ hn)) with hn | hn
    · exact hout hn
    · obtain ⟨k', hk', _, he⟩ := ha.new_names hn
      have := (TaskName.ofExecution_inj.1 he).2
      omega
  · have := ha.next
    omega

theorem Retired.of_over (ha : Accounts e ended ts e') (hs : Sound e) (hn : n ∈ ended) :
    Retired e' n :=
  ⟨fun hn' => (List.nodup_append.1 (ha.nodup hs)).2.2 n hn n hn' rfl,
    ha.below hs (List.mem_append_left _ hn)⟩

/-! ## Results on record -/

/-- A merge that is over adds its output to what is held, or nothing. -/
theorem mem_credited {old new rs ss : List PartialResult} {w : Nat} (hold : old.Perm (rs ++ ss))
    (hnew : new.Perm (kept (c.output w) ++ ss)) (hr : r ∈ new) : r ∈ old ∨ r = c.output w := by
  rcases List.mem_append.1 (hnew.mem_iff.1 hr) with hr | hr
  · unfold kept at hr
    split at hr
    · exact .inr (List.mem_singleton.1 hr)
    · cases hr
  · exact .inl (hold.mem_iff.2 (List.mem_append_right _ hr))

/-- What is held after a change was held before, or is the output of a task that is over. -/
theorem Step.recorded (hstep : Step e call lost missed ended change next) (hs : Sound e)
    (hr : r ∈ change.1.holdings) : r ∈ e.holdings ∨ Records e call r := by
  cases hstep with
  | ignored | started | fetched | missed => exact .inl hr
  | produced ht hp =>
    rcases List.mem_append.1 ((holdings_unreduced _ _).mem_iff.1 hr) with hr | hr
    · obtain rfl := List.mem_singleton.1 hr
      exact .inr ⟨recorded?_produced ht hp⟩
    · exact .inl hr
  | merged ht hp hg =>
    refine (mem_credited (holdings_merging hg) (holdings_reduced _ _) hr).imp_right ?_
    rintro rfl
    exact ⟨recorded?_merged ht hp (group?_merging hg)⟩
  | cutShort ht hp hg hf =>
    refine (mem_credited (holdings_final hf) (holdings_reduced _ _) hr).imp_right ?_
    rintro rfl
    exact ⟨recorded?_merged ht hp (group?_final hg hf)⟩
  | completed _ _ _ hf | finalAbandoned _ _ _ hf =>
    exact .inl ((holdings_final hf).mem_iff.2 (List.mem_append_right _ hr))
  | retried _ _ hg _ => exact .inl ((holdings_again _ hg hs.fresh_merging).mem_iff.2 hr)
  | abandoned _ _ hg _ =>
    exact .inl ((holdings_merging hg).mem_iff.2 (List.mem_append_right _ hr))
  | finalRetried _ _ _ hf _ =>
    simp only [holdings, lastInputs] at hr
    simp only [holdings, lastInputs, hf]
    exact .inl hr

theorem respond_recorded (hs : Sound e) (call : Call) (hr : r ∈ (e.respond call).1.holdings) :
    r ∈ e.holdings ∨ Records e call r := by
  obtain ⟨change, next, hstep, heq⟩ := respond_step e call
  rw [heq] at hr
  cases next with
  | none => exact hstep.recorded hs hr
  | some ctx =>
    have hperm := holdings_advance ((hstep.accounts hs).sound hs) ctx
    exact hstep.recorded hs (hperm.mem_iff.1 hr)

theorem respond_retired (hs : Sound e) (h : ∀ r ∈ e.holdings, Retired e r.task) (call : Call) :
    ∀ r ∈ (e.respond call).1.holdings, Retired (e.respond call).1 r.task := by
  have ha := respond_accounts hs call
  intro r hr
  rcases respond_recorded hs call hr with hr | hrec
  · exact (h r hr).of_accounts ha
  · exact .of_over ha hs hrec.over

structure Filed (e : Execution) : Prop where
  nodup : (e.holdings.map PartialResult.task).Nodup
  retired : ∀ r ∈ e.holdings, Retired e r.task

theorem nodup_rest {old rs ss : List PartialResult} (hn : (old.map PartialResult.task).Nodup)
    (hold : old.Perm (rs ++ ss)) : (ss.map PartialResult.task).Nodup :=
  ((hold.map _).nodup_iff.1 hn).sublist ((List.sublist_append_right rs ss).map _)

/-- The output of a merge is held in the place of its inputs. -/
theorem nodup_credited {old new rs ss : List PartialResult} {w : Nat}
    (hn : (old.map PartialResult.task).Nodup) (hc : c.task ∉ old.map PartialResult.task)
    (hold : old.Perm (rs ++ ss)) (hnew : new.Perm (kept (c.output w) ++ ss)) :
    (new.map PartialResult.task).Nodup := by
  refine (hnew.map _).nodup_iff.2 ?_
  unfold kept
  split
  · refine List.nodup_cons.2 ⟨fun hmem => hc ?_, nodup_rest hn hold⟩
    obtain ⟨r, hr, htask⟩ := List.mem_map.1 hmem
    exact List.mem_map.2 ⟨r, hold.mem_iff.2 (List.mem_append_right rs hr), htask⟩
  · exact nodup_rest hn hold

theorem Step.nodup (hstep : Step e call lost missed ended change next) (hs : Sound e)
    (h : Filed e) : (change.1.holdings.map PartialResult.task).Nodup := by
  have hout : ∀ n ∈ e.outstanding, n ∉ e.holdings.map PartialResult.task := by
    intro n hn hmem
    obtain ⟨r, hr, rfl⟩ := List.mem_map.1 hmem
    exact (h.retired r hr).1 hn
  cases hstep with
  | ignored | started | fetched | missed => exact h.nodup
  | produced _ hp =>
    refine ((holdings_unreduced _ _).map _).nodup_iff.2 ?_
    exact List.nodup_cons.2 ⟨hout _ (mem_outstanding.2 (.inl hp)), h.nodup⟩
  | @merged c _ g _ _ hg =>
    have hc := mem_outstanding.2 (.inr (.inl (OrderedMap.mem_keys_iff.2 ⟨g, hg⟩)))
    have hnew := nodup_credited h.nodup (hout _ hc) (holdings_merging hg)
      (holdings_reduced _ (kept (c.output (creditedWeight g c.weight))))
    exact hnew
  | @cutShort c _ g _ _ _ hf =>
    have hc := mem_outstanding.2 (.inr (.inr ⟨g, hf⟩))
    have hnew := nodup_credited h.nodup (hout _ hc) (holdings_final hf)
      (holdings_reduced _ (kept (c.output (creditedWeight g c.weight))))
    exact hnew
  | completed _ _ _ hf | finalAbandoned _ _ _ hf => exact nodup_rest h.nodup (holdings_final hf)
  | retried _ _ hg _ =>
    exact ((holdings_again _ hg hs.fresh_merging).map _).nodup_iff.1 h.nodup
  | abandoned _ _ hg _ => exact nodup_rest h.nodup (holdings_merging hg)
  | finalRetried _ _ _ hf _ =>
    have hsame := h.nodup
    simp only [holdings, lastInputs, hf] at hsame
    exact hsame

/-- A change files the results of the tasks that it ends. -/
theorem Step.filed (hstep : Step e call lost missed (e.overBy call) change next) (hs : Sound e)
    (h : Filed e) : Filed change.1 := by
  have ha := hstep.accounts hs
  refine ⟨hstep.nodup hs h, fun r hr => ?_⟩
  rcases hstep.recorded hs hr with hr | hrec
  · exact (h.retired r hr).of_accounts ha
  · exact .of_over ha hs hrec.over

theorem Filed.of_perm (h : Filed e) (ha : Accounts e ended ts e')
    (hperm : e'.holdings.Perm e.holdings) : Filed e' :=
  ⟨(hperm.map _).nodup_iff.2 h.nodup,
    fun r hr => (h.retired r (hperm.mem_iff.1 hr)).of_accounts ha⟩

theorem Issues.filed (hi : Issues e ts e') (hs : Sound e) (h : Filed e) : Filed e' :=
  h.of_perm (hi.accounts hs) (hi.holdings hs)

theorem respond_filed (hs : Sound e) (h : Filed e) (call : Call) : Filed (e.respond call).1 := by
  obtain ⟨change, next, hstep, heq⟩ := respond_step e call
  have hs' := (hstep.accounts hs).sound hs
  have hchange := hstep.filed hs h
  rw [heq]
  cases next with
  | none => exact hchange
  | some ctx => exact hchange.of_perm (advance_accounts hs' ctx) (holdings_advance hs' ctx)

theorem after_filed (policy : ExecutionPolicy) (name : ExecutionName) (session : SessionName)
    (parallel : Nat) (fetches : Bool) (now : Nat) (past : List Call) :
    Filed ((create policy name session parallel fetches now).after past) := by
  have hs := create_sound policy name session parallel fetches now
  induction past with
  | nil => exact ⟨List.nodup_nil, fun r hr => absurd hr (List.not_mem_nil)⟩
  | cons call past ih => exact respond_filed (after_sound hs past) ih call

/-! ## The end -/

theorem phase_advance (ht : e.isTerminal = false) (ctx : Context) :
    (e.advance ctx).1.phase ≠ .finished := by
  rcases advance_cases ht ctx with ⟨reason, ha⟩ | ⟨_, ts, e', ha, hi, _⟩
  · rw [ha]
    exact Phase.noConfusion
  · rw [ha]
    intro hp
    have hrun := hi.isTerminal ht
    rw [isTerminal, hp] at hrun
    cases hrun

theorem Step.finished (hstep : Step e call lost missed ended change none)
    (hp : e.phase ≠ .finished) (h : change.1.phase = .finished) :
    ∃ r g, Records e call r ∧ e.finalMerge = some (r.task, g) ∧ change.1.result = some r := by
  cases hstep with
  | ignored | finalRetried => exact absurd h hp
  | @completed c ctx g ht hprod hg hf hw =>
    refine ⟨c.output g.weight, g, ⟨?_⟩, hf, rfl⟩
    rw [recorded?_merged ht hprod (group?_final hg hf), hw]
  | finalAbandoned => cases h

/-- The result of an execution is the one that is recorded of its final merge. -/
theorem respond_finished (hp : e.phase ≠ .finished) (h : (e.respond call).1.phase = .finished) :
    ∃ r g, Records e call r ∧ e.finalMerge = some (r.task, g) ∧
      (e.respond call).1.result = some r := by
  obtain ⟨change, next, hstep, heq⟩ := respond_step e call
  rw [heq] at h ⊢
  cases next with
  | some ctx => exact absurd h (phase_advance hstep.running ctx)
  | none => exact hstep.finished hp h

end Execution
end RenderFarm
