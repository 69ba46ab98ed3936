import RenderFarm.Proofs.Execution.Issuing
import RenderFarm.Proofs.Name

/-!
# RenderFarm.Proofs.Execution.Accounts

The account of the tasks of an execution: what is outstanding afterwards is what was outstanding
before and what is issued, less what is over.

* `Accounts e ended ts e'`: this account, with the numbers of the tasks issued.
* `respond_accounts`: every call keeps it.
* `Sound`: the outstanding tasks are distinct and were issued by the execution.
-/

namespace RenderFarm
namespace Execution

/-- What stays fixed when an execution changes. -/
structure SameTerms (e e' : Execution) : Prop where
  policy : e'.policy = e.policy
  name : e'.name = e.name
  session : e'.session = e.session
  parallel : e'.parallel = e.parallel
  fetches : e'.fetches = e.fetches

theorem SameTerms.refl (e : Execution) : SameTerms e e := ⟨rfl, rfl, rfl, rfl, rfl⟩

theorem SameTerms.trans {e₁ e₂ e₃ : Execution} (h : SameTerms e₁ e₂) (h' : SameTerms e₂ e₃) :
    SameTerms e₁ e₃ :=
  ⟨h'.policy.trans h.policy, h'.name.trans h.name, h'.session.trans h.session,
    h'.parallel.trans h.parallel, h'.fetches.trans h.fetches⟩

/-- The outstanding tasks are distinct, and numbered below the number of the next task. -/
structure Sound (e : Execution) : Prop where
  nodup : e.outstanding.Nodup
  below : ∀ n ∈ e.outstanding, ∃ k < e.nextTask, n = .ofExecution e.name k

/-- From `e` to `e'` the tasks `ended` end and the tasks `ts` are issued. -/
structure Accounts (e : Execution) (ended : List TaskName) (ts : List Task) (e' : Execution) :
    Prop where
  terms : SameTerms e e'
  outstanding : (ended ++ e'.outstanding).Perm (e.outstanding ++ ts.map Task.name)
  names : ts.map Task.name = (List.range' e.nextTask ts.length).map (.ofExecution e.name)
  next : e'.nextTask = e.nextTask + ts.length
  owner : ∀ t ∈ ts, t.execution = e.name ∧ t.session = e.session

namespace Accounts

theorem refl (e : Execution) : Accounts e [] [] e :=
  ⟨.refl e, by simp, rfl, rfl, by simp⟩

theorem trans {e₁ e₂ e₃ : Execution} {ended ended' : List TaskName} {ts ts' : List Task}
    (h : Accounts e₁ ended ts e₂) (h' : Accounts e₂ ended' ts' e₃) :
    Accounts e₁ (ended ++ ended') (ts ++ ts') e₃ where
  terms := h.terms.trans h'.terms
  outstanding := by
    rw [List.perm_iff_count]
    intro n
    have h₁ := h.outstanding.count_eq n
    have h₂ := h'.outstanding.count_eq n
    simp only [List.map_append, List.count_append] at *
    omega
  names := by
    rw [List.map_append, h.names, h'.names, h.next, h.terms.name, ← List.map_append,
      List.length_append, List.range'_append_1]
  next := by rw [h'.next, h.next, List.length_append, Nat.add_assoc]
  owner := by
    intro t ht
    rcases List.mem_append.1 ht with ht | ht
    · exact h.owner t ht
    · have := h'.owner t ht
      rwa [h.terms.name, h.terms.session] at this

section Names

variable {e e' : Execution} {ended : List TaskName} {ts : List Task} {n : TaskName}

theorem new_names (h : Accounts e ended ts e') (hn : n ∈ ts.map Task.name) :
    ∃ k, e.nextTask ≤ k ∧ k < e'.nextTask ∧ n = .ofExecution e.name k := by
  rw [h.names] at hn
  obtain ⟨k, hk, rfl⟩ := List.mem_map.1 hn
  have := List.mem_range'_1.1 hk
  have := h.next
  exact ⟨k, by omega, by omega, rfl⟩

theorem names_nodup (h : Accounts e ended ts e') : (ts.map Task.name).Nodup := by
  rw [h.names]
  refine List.pairwise_map.2 ((List.nodup_range' 1).imp ?_)
  intro i j hij he
  exact hij (TaskName.ofExecution_inj.1 he).2

theorem nodup (h : Accounts e ended ts e') (hs : Sound e) : (ended ++ e'.outstanding).Nodup := by
  refine h.outstanding.nodup_iff.2 (List.nodup_append.2 ⟨hs.nodup, h.names_nodup, ?_⟩)
  intro n hn n' hn' he
  subst he
  obtain ⟨k, hk, rfl⟩ := hs.below n hn
  obtain ⟨k', hk', _, he⟩ := h.new_names hn'
  have := (TaskName.ofExecution_inj.1 he).2
  omega

theorem below (h : Accounts e ended ts e') (hs : Sound e) (hn : n ∈ ended ++ e'.outstanding) :
    ∃ k < e'.nextTask, n = .ofExecution e'.name k := by
  rw [h.terms.name]
  rcases List.mem_append.1 (h.outstanding.mem_iff.1 hn) with hn | hn
  · obtain ⟨k, hk, rfl⟩ := hs.below n hn
    have := h.next
    exact ⟨k, by omega, rfl⟩
  · obtain ⟨k, _, hk, rfl⟩ := h.new_names hn
    exact ⟨k, hk, rfl⟩

theorem sound (h : Accounts e ended ts e') (hs : Sound e) : Sound e' :=
  ⟨(h.nodup hs).sublist (List.sublist_append_right _ _),
    fun _ hn => h.below hs (List.mem_append_right _ hn)⟩

end Names

end Accounts

theorem Sound.fresh {e : Execution} (hs : Sound e) : e.freshName ∉ e.outstanding := by
  intro h
  obtain ⟨k, hk, he⟩ := hs.below _ h
  have := (TaskName.ofExecution_inj.1 he).2
  omega

theorem Sound.fresh_merging {e : Execution} (hs : Sound e) : e.freshName ∉ e.merging.keys :=
  fun h => hs.fresh (mem_outstanding.2 (.inr (.inl h)))

/-! ## Issuing -/

theorem withMerge_accounts {e : Execution} (hs : Sound e) :
    Accounts e [] [e.mergeTask { inputs := e.unreduced }] e.withMerge where
  terms := ⟨rfl, rfl, rfl, rfl, rfl⟩
  outstanding := by
    simp only [List.nil_append, outstanding, withMerge,
      OrderedMap.keys_insert_new _ hs.fresh_merging]
    rw [List.perm_iff_count]
    intro n
    simp only [List.count_append, List.map_cons, List.map_nil, mergeTask]
    omega
  names := rfl
  next := rfl
  owner := by simp [mergeTask]

theorem Issues.accounts {e e' : Execution} {ts : List Task} (h : Issues e ts e') (hs : Sound e) :
    Accounts e [] ts e' := by
  induction h with
  | nothing => exact .refl _
  | merge _ _ _ ih =>
    have h := withMerge_accounts hs
    exact h.trans (ih (h.sound hs))
  | @last e hf _ _ _ _ _ =>
    refine ⟨⟨rfl, rfl, rfl, rfl, rfl⟩, ?_, rfl, rfl, by simp [mergeTask]⟩
    simp [outstanding, withLast, hf, mergeTask]
  | @produce e n _ _ =>
    refine ⟨⟨rfl, rfl, rfl, rfl, rfl⟩, ?_, ?_, by simp [startProducing], by simp [producingTask]⟩
    · rw [List.perm_iff_count]
      intro n
      simp only [List.nil_append, outstanding, startProducing, List.count_append]
      omega
    · simp only [List.map_map, List.length_map, List.length_range, List.range'_eq_map_range]
      rfl

/-! ## Calls -/

@[simp] theorem tasksOf_append (as bs : List Action) :
    tasksOf (as ++ bs) = tasksOf as ++ tasksOf bs :=
  List.filterMap_append

@[simp] theorem tasksOf_enqueue (ts : List Task) : tasksOf (ts.map .enqueue) = ts := by
  induction ts with
  | nil => rfl
  | cons t ts ih => exact congrArg (t :: ·) ih

theorem tasksOf_adaptTimeout (e : Execution) (elapsed : Nat) :
    tasksOf (e.adaptTimeout elapsed).2 = [] := by
  unfold adaptTimeout
  split <;> rfl

theorem advance_accounts {e : Execution} (hs : Sound e) (ctx : Context) :
    Accounts e [] (tasksOf (e.advance ctx).2) (e.advance ctx).1 := by
  rcases advance_issues e ctx with ⟨reason, ha⟩ | ⟨ts, e', ha, hi⟩
  · rw [ha]
    exact ⟨⟨rfl, rfl, rfl, rfl, rfl⟩, by simp [outstanding, failWith, tasksOf], rfl, rfl,
      by simp [failWith, tasksOf]⟩
  · rw [ha, tasksOf_enqueue]
    exact hi.accounts hs

theorem outstanding_producing {e : Execution} {n : TaskName} (h : n ∈ e.producing) :
    e.outstanding.Perm (n :: (e.producing.erase n ++ e.merging.keys ++
      (e.finalMerge.map Prod.fst).toList)) :=
  ((List.perm_cons_erase h).append_right _).append_right _

theorem outstanding_merging {e : Execution} {n : TaskName} {g : MergeGroup}
    (h : e.merging.find? n = some g) :
    e.outstanding.Perm (n :: (e.producing ++ (e.merging.erase n).keys ++
      (e.finalMerge.map Prod.fst).toList)) :=
  (((OrderedMap.keys_perm_erase h).append_left _).trans List.perm_middle).append_right _

theorem outstanding_final {e : Execution} {n : TaskName} {g : MergeGroup}
    (h : e.finalMerge = some (n, g)) :
    e.outstanding.Perm (n :: (e.producing ++ e.merging.keys)) := by
  simpa [outstanding, h] using List.perm_append_singleton n (e.producing ++ e.merging.keys)

theorem Accounts.ended {e e' : Execution} {n : TaskName} (terms : SameTerms e e')
    (h : e.outstanding.Perm (n :: e'.outstanding)) (next : e'.nextTask = e.nextTask) :
    Accounts e [n] [] e' :=
  ⟨terms, by simpa using h.symm, rfl, next, by simp⟩

/-- A merge is over, and another one of the same inputs is issued for it. -/
theorem Accounts.again {e e' : Execution} {n : TaskName} {g : MergeGroup} {rest : List TaskName}
    (terms : SameTerms e e') (h : e.outstanding.Perm (n :: rest))
    (h' : e'.outstanding.Perm (e.freshName :: rest)) (next : e'.nextTask = e.nextTask + 1) :
    Accounts e [n] [e.mergeTask g] e' := by
  refine ⟨terms, ?_, rfl, next, by simp [mergeTask]⟩
  rw [List.perm_iff_count] at *
  intro a
  have := h a
  have := h' a
  simp only [List.count_append, List.count_cons, List.count_nil, List.map_cons, List.map_nil,
    mergeTask] at *
  omega

theorem Step.accounts {e : Execution} {call : Call} {lost missed : Nat} {ended : List TaskName}
    {change : Execution × List Action} {next : Option Context}
    (h : Step e call lost missed ended change next) (hs : Sound e) :
    Accounts e ended (tasksOf change.2) change.1 := by
  cases h with
  | ignored => exact .refl e
  | started => exact .refl e
  | fetched => exact { Accounts.refl e with terms := ⟨rfl, rfl, rfl, rfl, rfl⟩ }
  | produced _ hp =>
    rw [tasksOf_adaptTimeout]
    exact .ended ⟨rfl, rfl, rfl, rfl, rfl⟩ (outstanding_producing hp) rfl
  | merged _ _ hg => exact .ended ⟨rfl, rfl, rfl, rfl, rfl⟩ (outstanding_merging hg) rfl
  | completed _ _ _ hf | cutShort _ _ _ hf | finalAbandoned _ _ _ hf =>
    refine .ended ⟨rfl, rfl, rfl, rfl, rfl⟩ ((outstanding_final hf).trans ?_) rfl
    simp [outstanding, finishWith, failWith]
  | missed _ hp => exact .ended ⟨rfl, rfl, rfl, rfl, rfl⟩ (outstanding_producing hp) rfl
  | @retried task _ _ g _ _ hg _ =>
    refine .again ⟨rfl, rfl, rfl, rfl, rfl⟩ (outstanding_merging hg) ?_ rfl
    have hk : e.freshName ∉ (e.merging.erase task).keys := fun h =>
      hs.fresh_merging ((OrderedMap.keys_perm_erase hg).mem_iff.2 (List.mem_cons_of_mem _ h))
    simp only [outstanding, OrderedMap.keys_insert_new _ hk, ← List.append_assoc]
    exact (List.perm_append_singleton _ _).append_right _
  | abandoned _ _ hg => exact .ended ⟨rfl, rfl, rfl, rfl, rfl⟩ (outstanding_merging hg) rfl
  | finalRetried _ _ _ hf _ =>
    refine .again ⟨rfl, rfl, rfl, rfl, rfl⟩ (outstanding_final hf) ?_ rfl
    exact outstanding_final rfl

/-- Every call keeps the account. -/
theorem respond_accounts {e : Execution} (hs : Sound e) (call : Call) :
    Accounts e (e.overBy call) (tasksOf (e.respond call).2) (e.respond call).1 := by
  obtain ⟨change, next, hstep, heq⟩ := respond_step e call
  have h := hstep.accounts hs
  rw [heq]
  cases next with
  | none => exact h
  | some ctx =>
    have := h.trans (advance_accounts (h.sound hs) ctx)
    simpa [proceed, andAdvance] using this

theorem after_sound {e : Execution} (hs : Sound e) (past : List Call) : Sound (e.after past) := by
  induction past with
  | nil => exact hs
  | cons call past ih => exact (respond_accounts ih call).sound ih

theorem after_terms {e : Execution} (hs : Sound e) (past : List Call) :
    SameTerms e (e.after past) := by
  induction past with
  | nil => exact .refl e
  | cons call past ih => exact ih.trans (respond_accounts (after_sound hs past) call).terms

/-- The tasks of a run, in the order in which they were issued. -/
def issued (e : Execution) (past : List Call) : List Task := tasksOf (e.emitted past)

/-- The account of a whole run. -/
theorem after_accounts {e : Execution} (hs : Sound e) (past : List Call) :
    ∃ ended, Accounts e ended (e.issued past) (e.after past) := by
  induction past with
  | nil => exact ⟨[], .refl e⟩
  | cons call past ih =>
    obtain ⟨ended, h⟩ := ih
    refine ⟨ended ++ (e.after past).overBy call, ?_⟩
    simp only [issued, emitted, tasksOf_append]
    exact h.trans (respond_accounts (after_sound hs past) call)

/-- An execution that has issued nothing is sound. -/
theorem create_sound (policy : ExecutionPolicy) (name : ExecutionName) (session : SessionName)
    (parallel : Nat) (fetches : Bool) (now : Nat) :
    Sound (create policy name session parallel fetches now) :=
  ⟨List.nodup_nil, by intro n hn; cases hn⟩

end Execution
end RenderFarm
