import RenderFarm.Proofs.Execution.Provenance

/-!
# RenderFarm.Proofs.Execution.Groups

The groups of the outstanding merges, and the tasks that were issued for them.

* `Merges e n g`: the task `n` is to merge the group `g`.
* `respond_groups`: a call leaves the groups that there were, and those of the tasks that it has
  issued; such a task has the inputs of its group.
* `respond_merges`, `respond_issued`: the other way round, a merge is outstanding with the inputs
  that its task was issued with, until its end is reported.
* `merges_inputs`: each input of a group stands for something, in every run.
-/

namespace RenderFarm
namespace Execution

def Merges (e : Execution) (n : TaskName) (g : MergeGroup) : Prop :=
  e.merging.find? n = some g ∨ e.finalMerge = some (n, g)

variable {e e' : Execution} {n : TaskName} {g : MergeGroup} {ts : List Task} {call : Call}
  {lost missed : Nat} {ended : List TaskName} {change : Execution × List Action}
  {next : Option Context} {t : Task} {inputs : List PartialResult}

theorem merges_of_group? (h : e.group? n = some g) : e.Merges n g := by
  rcases Option.or_eq_some_iff.1 h with h | ⟨_, h⟩
  · exact .inl h
  · exact .inr (finalGroup?_eq_some.1 h)

theorem Merges.outstanding (h : e.Merges n g) : n ∈ e.outstanding := by
  rcases h with h | h
  · exact mem_outstanding.2 (.inr (.inl (OrderedMap.mem_keys_iff.2 ⟨g, h⟩)))
  · exact mem_outstanding.2 (.inr (.inr ⟨g, h⟩))

theorem Merges.held (h : e.Merges n g) : ∃ rest, e.holdings.Perm (g.inputs ++ rest) := by
  rcases h with h | h
  · exact ⟨_, holdings_merging h⟩
  · exact ⟨_, holdings_final h⟩

/-! ## Where groups come from -/

def GroupsFrom (e : Execution) (ts : List Task) (e' : Execution) : Prop :=
  ∀ n g, e'.Merges n g → e.Merges n g ∨ ∃ t ∈ ts, t.name = n ∧ t.work = .reduce g.inputs

theorem GroupsFrom.trans {e₁ e₂ e₃ : Execution} {ts ts' : List Task} (h : GroupsFrom e₁ ts e₂)
    (h' : GroupsFrom e₂ ts' e₃) : GroupsFrom e₁ (ts ++ ts') e₃ := by
  intro n g hg
  rcases h' n g hg with hg | ⟨t, ht, hn⟩
  · rcases h n g hg with hg | ⟨t, ht, hn⟩
    · exact .inl hg
    · exact .inr ⟨t, List.mem_append_left _ ht, hn⟩
  · exact .inr ⟨t, List.mem_append_right _ ht, hn⟩

theorem withMerge_groups (e : Execution) :
    GroupsFrom e [e.mergeTask { inputs := e.unreduced }] e.withMerge := by
  intro n g hg
  rcases hg with hg | hg
  · simp only [withMerge, OrderedMap.find?_insert] at hg
    split at hg
    · rename_i hn
      cases hg
      exact .inr ⟨_, List.mem_singleton_self _, hn, rfl⟩
    · exact .inl (.inl hg)
  · exact .inl (.inr hg)

theorem Issues.groups (h : Issues e ts e') : GroupsFrom e ts e' := by
  induction h with
  | nothing | produce => exact fun _ _ hg => .inl hg
  | merge _ _ _ ih => exact (withMerge_groups _).trans ih
  | last =>
    intro n g hg
    rcases hg with hg | hg
    · exact .inl (.inl hg)
    · cases hg
      exact .inr ⟨_, List.mem_singleton_self _, rfl, rfl⟩

theorem advance_groups (e : Execution) (ctx : Context) :
    GroupsFrom e (tasksOf (e.advance ctx).2) (e.advance ctx).1 := by
  rcases advance_issues e ctx with ⟨reason, ha⟩ | ⟨ts, e', ha, hi⟩
  · rw [ha]
    exact fun _ _ hg => .inl hg
  · rw [ha, tasksOf_enqueue]
    exact hi.groups

/-- The end of a merge leaves the groups of the others. -/
theorem merges_erase {m : TaskName} (h : (e.merging.erase m).find? n = some g) :
    e.Merges n g :=
  .inl (OrderedMap.find?_of_erase h)

theorem Step.groups (h : Step e call lost missed ended change next) :
    GroupsFrom e (tasksOf change.2) change.1 := by
  intro n g hg
  cases h with
  | ignored | started | fetched | produced | missed => exact .inl hg
  | merged | abandoned =>
    rcases hg with hg | hg
    · exact .inl (merges_erase hg)
    · exact .inl (.inr hg)
  | completed | cutShort | finalAbandoned =>
    rcases hg with hg | hg
    · exact .inl (.inl hg)
    · cases hg
  | retried =>
    rcases hg with hg | hg
    · simp only [OrderedMap.find?_insert] at hg
      split at hg
      · rename_i hn
        cases hg
        exact .inr ⟨_, List.mem_singleton_self _, hn, rfl⟩
      · exact .inl (merges_erase hg)
    · exact .inl (.inr hg)
  | finalRetried =>
    rcases hg with hg | hg
    · exact .inl (.inl hg)
    · cases hg
      exact .inr ⟨_, List.mem_singleton_self _, rfl, rfl⟩

/-- Every merge that is outstanding after a call was so before it, or its task has just been issued
with the inputs of the group. -/
theorem respond_groups (e : Execution) (call : Call) :
    GroupsFrom e (tasksOf (e.respond call).2) (e.respond call).1 := by
  obtain ⟨change, next, hstep, heq⟩ := respond_step e call
  rw [heq]
  cases next with
  | none => exact hstep.groups
  | some ctx =>
    have := hstep.groups.trans (advance_groups change.1 ctx)
    simpa [proceed, andAdvance] using this

/-! ## Groups that stay -/

theorem Merges.ne_fresh (hs : Sound e) (h : e.Merges n g) : n ≠ e.freshName := by
  rintro rfl
  exact hs.fresh h.outstanding

/-- Under the fresh name there is the new group, and under the other names what there was. -/
theorem merges_insert {merging : OrderedMap TaskName MergeGroup} {m : TaskName} {g' : MergeGroup}
    (h : merging.find? n = some g) (hn : n ≠ m) : (merging.insert m g').find? n = some g := by
  rw [OrderedMap.find?_insert, if_neg hn.symm]
  exact h

theorem find?_erase_of_ne {m : TaskName} (h : e.merging.find? n = some g) (hn : n ∉ [m]) :
    (e.merging.erase m).find? n = some g := by
  rw [OrderedMap.find?_erase, if_neg fun heq => hn (List.mem_singleton.2 heq.symm)]
  exact h

theorem Step.merges (hstep : Step e call lost missed ended change next) (hs : Sound e)
    (h : e.Merges n g) (hn : n ∉ ended) : change.1.Merges n g := by
  have hfinal : ∀ {m : TaskName} {g' : MergeGroup}, n ∉ [m] → e.finalMerge = some (m, g') →
      e.merging.find? n = some g := by
    intro m g' hne hf
    rcases h with h | h
    · exact h
    · cases hf.symm.trans h
      exact absurd (List.mem_singleton_self _) hne
  cases hstep with
  | ignored | started | fetched | produced | missed => exact h
  | merged | abandoned => exact h.imp_left fun h => find?_erase_of_ne h hn
  | completed _ _ _ hf | cutShort _ _ _ hf | finalAbandoned _ _ _ hf => exact .inl (hfinal hn hf)
  | retried =>
    exact h.imp_left fun hm => merges_insert (find?_erase_of_ne hm hn) (h.ne_fresh hs)
  | finalRetried _ _ _ hf _ => exact .inl (hfinal hn hf)

theorem Issues.merges (hi : Issues e ts e') (hs : Sound e) (h : e.Merges n g) :
    e'.Merges n g := by
  induction hi with
  | nothing | produce => exact h
  | merge _ _ _ ih =>
    refine ih ((withMerge_accounts hs).sound hs) ?_
    exact h.imp_left fun hm => merges_insert hm (h.ne_fresh hs)
  | last hf =>
    rcases h with h | h
    · exact .inl h
    · rw [hf] at h
      cases h

theorem Issues.issued_merges (hi : Issues e ts e') (hs : Sound e) (ht : t ∈ ts)
    (hw : t.work = .reduce inputs) : ∃ g, e'.Merges t.name g ∧ g.inputs = inputs := by
  induction hi with
  | nothing => cases ht
  | @merge e e' ts _ _ hrest ih =>
    have hs' := (withMerge_accounts hs).sound hs
    rcases List.mem_cons.1 ht with rfl | ht
    · cases hw
      refine ⟨{ inputs := e.unreduced }, hrest.merges hs' (.inl ?_), rfl⟩
      exact (OrderedMap.find?_insert _ _ _ _).trans (if_pos rfl)
    · exact ih hs' ht
  | last =>
    obtain rfl := List.mem_singleton.1 ht
    cases hw
    exact ⟨_, .inr rfl, rfl⟩
  | produce =>
    obtain ⟨i, _, rfl⟩ := List.mem_map.1 ht
    cases hw

theorem merges_advance (hs : Sound e) (h : e.Merges n g) (ctx : Context) :
    (e.advance ctx).1.Merges n g := by
  rcases advance_issues e ctx with ⟨reason, ha⟩ | ⟨ts, e', ha, hi⟩
  · rw [ha]
    exact h
  · rw [ha]
    exact hi.merges hs h

/-- A merge stays what it is until its end is reported. -/
theorem respond_merges (hs : Sound e) (h : e.Merges n g) (hn : n ∉ e.overBy call) :
    (e.respond call).1.Merges n g := by
  obtain ⟨change, next, hstep, heq⟩ := respond_step e call
  have hm := hstep.merges hs h hn
  rw [heq]
  cases next with
  | none => exact hm
  | some ctx => exact merges_advance ((hstep.accounts hs).sound hs) hm ctx

theorem Step.issued_merges (hstep : Step e call lost missed ended change next)
    (ht : t ∈ tasksOf change.2) (hw : t.work = .reduce inputs) :
    ∃ g, change.1.Merges t.name g ∧ g.inputs = inputs := by
  cases hstep with
  | produced =>
    rw [tasksOf_adaptTimeout] at ht
    cases ht
  | retried =>
    obtain rfl := List.mem_singleton.1 ht
    cases hw
    exact ⟨_, .inl ((OrderedMap.find?_insert _ _ _ _).trans (if_pos rfl)), rfl⟩
  | finalRetried =>
    obtain rfl := List.mem_singleton.1 ht
    cases hw
    exact ⟨_, .inr rfl, rfl⟩
  | _ => cases ht

/-- Whatever merge is issued is outstanding, with the inputs that its task has. -/
theorem respond_issued (hs : Sound e) (ht : t ∈ tasksOf (e.respond call).2)
    (hw : t.work = .reduce inputs) :
    ∃ g, (e.respond call).1.Merges t.name g ∧ g.inputs = inputs := by
  obtain ⟨change, next, hstep, heq⟩ := respond_step e call
  rw [heq] at ht ⊢
  cases next with
  | none => exact hstep.issued_merges ht hw
  | some ctx =>
    have hs' := (hstep.accounts hs).sound hs
    simp only [proceed, andAdvance, tasksOf_append] at ht ⊢
    rcases List.mem_append.1 ht with ht | ht
    · obtain ⟨g, hm, hg⟩ := hstep.issued_merges ht hw
      exact ⟨g, merges_advance hs' hm ctx, hg⟩
    · rcases advance_issues change.1 ctx with ⟨reason, ha⟩ | ⟨ts, e', ha, hi⟩
      · rw [ha] at ht
        cases ht
      · rw [ha, tasksOf_enqueue] at ht
        rw [ha]
        exact hi.issued_merges hs' ht hw

/-! ## The inputs of groups -/

theorem merges_inputs (policy : ExecutionPolicy) (name : ExecutionName) (session : SessionName)
    (parallel : Nat) (fetches : Bool) (now : Nat) (past : List Call)
    (h : ((create policy name session parallel fetches now).after past).Merges n g) :
    ∀ r ∈ g.inputs, 0 < r.weight := by
  have hs := create_sound policy name session parallel fetches now
  have hb := create_balanced policy name session parallel fetches now
  have htraced := after_traced hs hb (create_traced policy name session parallel fetches now) past
  obtain ⟨rest, hperm⟩ := h.held
  intro r hr
  exact (htraced.held.weight r (hperm.mem_iff.2 (List.mem_append_left _ hr))).1

end Execution
end RenderFarm
