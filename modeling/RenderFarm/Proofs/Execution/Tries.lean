import RenderFarm.Proofs.Execution.Groups

/-!
# RenderFarm.Proofs.Execution.Tries

How often a group is merged. A partial result gets into one group at most, and the group stays
together: a merge that fails is issued again with the same inputs, or given up.

* `Again failed t u`: two tasks have no input in common, or the second is the first one once more,
  after its failure.
* `Tried ts failed e`: the invariant, with the tasks issued and the tasks failed so far.
* `Tried.keep`, `Tried.issue`: what is to be shown of a change without a merge issued, and with one.
* `respond_again`: a merge that fails is repeated exactly if the policy allows it.
* `after_tried`: the invariant holds in every run.
-/

namespace RenderFarm

/-- What the task merges. -/
def Task.inputs (t : Task) : List PartialResult :=
  match t.work with
  | .produce .. => []
  | .reduce inputs => inputs

/-- The tasks whose output the task merges. -/
def Task.sources (t : Task) : List TaskName := t.inputs.map PartialResult.task

theorem Task.inputs_producing {t : Task} (h : t.kind = .producing) : t.inputs = [] := by
  obtain ⟨_, _, _, work, _⟩ := t
  cases work with
  | produce => rfl
  | reduce => cases h

theorem Task.work_reducing {t : Task} (h : t.kind = .reducing) : t.work = .reduce t.inputs := by
  obtain ⟨_, _, _, work, _⟩ := t
  cases work with
  | produce => cases h
  | reduce => rfl

theorem Task.inputs_ne {t : Task} {rs : List PartialResult}
    (h : t.sources.Disjoint (rs.map PartialResult.task)) (hne : rs ≠ []) : t.inputs ≠ rs := by
  obtain ⟨r, rest, rfl⟩ := List.exists_cons_of_ne_nil hne
  intro hsame
  rw [Task.sources, hsame] at h
  exact h List.mem_cons_self List.mem_cons_self

namespace Execution

/-- The outstanding task whose failure the call reports. -/
def failedBy (e : Execution) : Call → List TaskName
  | .fail task reason ctx => e.overBy (.fail task reason ctx)
  | _ => []

/-- The tasks whose failure was reported in a run, the earliest first. -/
def failedTasks (e : Execution) : List Call → List TaskName
  | [] => []
  | call :: past => e.failedTasks past ++ (e.after past).failedBy call

/-- The partial results that no merge has taken yet. -/
def untaken (e : Execution) : List PartialResult := e.unreduced ++ e.reduced

def Again (failed : List TaskName) (t u : Task) : Prop :=
  t.sources.Disjoint u.sources ∨ u.inputs = t.inputs ∧ t.name ∈ failed

/-- How many of the tasks merge these partial results, in this order. -/
def triesOf (rs : List PartialResult) (ts : List Task) : Nat :=
  ts.countP fun t => t.inputs = rs

variable {e e' : Execution} {n n' : TaskName} {g g' : MergeGroup} {ts us : List Task} {t u : Task}
  {failed failed' ended : List TaskName} {call : Call} {lost missed : Nat}
  {change : Execution × List Action} {next : Option Context} {rs : List PartialResult}

theorem Again.mono (hsub : failed ⊆ failed') (h : Again failed t u) : Again failed' t u :=
  h.imp_right fun ⟨hsame, hmem⟩ => ⟨hsame, hsub hmem⟩

theorem triesOf_concat (rs : List PartialResult) (ts : List Task) (u : Task) :
    triesOf rs (ts ++ [u]) = triesOf rs ts + if u.inputs = rs then 1 else 0 := by
  simp [triesOf]

theorem triesOf_append_producing (ts : List Task) (hus : ∀ t ∈ us, t.kind = .producing)
    (hne : rs ≠ []) : triesOf rs (ts ++ us) = triesOf rs ts := by
  rw [triesOf, triesOf, List.countP_append, Nat.add_eq_left, List.countP_eq_zero]
  intro t ht
  simpa [Task.inputs_producing (hus t ht)] using hne.symm

/-! ## Groups apart -/

theorem Merges.unique (hs : Sound e) (h : e.Merges n g) (h' : e.Merges n g') : g = g' := by
  have hapart : ∀ {g g' : MergeGroup}, e.merging.find? n = some g →
      e.finalMerge = some (n, g') → g = g' := by
    intro g g' hm hf
    have hkey := OrderedMap.mem_keys_iff.2 ⟨g, hm⟩
    have hnodup := hs.nodup
    simp only [Execution.outstanding, hf, Option.map_some, Option.toList_some] at hnodup
    have hne := (List.nodup_append.1 hnodup).2.2 n (List.mem_append_right _ hkey) n
      (List.mem_singleton_self n)
    exact absurd rfl hne
  rcases h with h | h <;> rcases h' with h' | h'
  · exact Option.some.inj (h.symm.trans h')
  · exact hapart h h'
  · exact (hapart h' h).symm
  · cases h.symm.trans h'
    rfl

theorem Merges.not_producing (hs : Sound e) (h : e.Merges n g) : n ∉ e.producing := by
  intro hp
  have hnodup := hs.nodup
  rw [Execution.outstanding, List.append_assoc] at hnodup
  refine (List.nodup_append.1 hnodup).2.2 n hp n ?_ rfl
  rcases h with h | h
  · exact List.mem_append_left _ (OrderedMap.mem_keys_iff.2 ⟨g, h⟩)
  · exact List.mem_append_right _ (by simp [h])

/-- What is held besides the inputs of a merge: all that is not taken, and the inputs of every other
merge. -/
theorem Merges.rest (h : e.Merges n g) : ∃ rest, e.holdings.Perm (g.inputs ++ rest) ∧
    (∀ r ∈ e.untaken, r ∈ rest) ∧ ∀ n' g', n' ≠ n → e.Merges n' g' → ∀ r ∈ g'.inputs, r ∈ rest := by
  have huntaken : ∀ e' : Execution, ∀ r ∈ e'.untaken, r ∈ e'.holdings := by
    intro e' r hr
    simp only [untaken, holdings, List.mem_append] at hr ⊢
    tauto
  have hothers : ∀ (e' : Execution) (n' : TaskName) (g' : MergeGroup), e'.Merges n' g' →
      ∀ r ∈ g'.inputs, r ∈ e'.holdings := by
    intro e' n' g' hm r hr
    obtain ⟨rest, hperm⟩ := hm.held
    exact hperm.mem_iff.2 (List.mem_append_left _ hr)
  rcases h with h | h
  · refine ⟨_, holdings_merging h, huntaken { e with merging := e.merging.erase n },
      fun n' g' hne hg' => hothers _ n' g' ?_⟩
    exact hg'.imp_left fun hm => find?_erase_of_ne hm (by simpa using hne)
  · refine ⟨_, holdings_final h, huntaken { e with finalMerge := none },
      fun n' g' hne hg' => hothers _ n' g' (.inl ?_)⟩
    rcases hg' with hm | hf
    · exact hm
    · cases h.symm.trans hf
      exact absurd rfl hne

/-- With one result on record for a task, it is the source of one thing only. -/
theorem Filed.apart (hf : Filed e) {rest ss : List PartialResult}
    (hperm : e.holdings.Perm (rs ++ rest)) (hss : ∀ r ∈ ss, r ∈ rest) :
    (rs.map PartialResult.task).Disjoint (ss.map PartialResult.task) := by
  have hnodup := (hperm.map PartialResult.task).nodup_iff.1 hf.nodup
  rw [List.map_append] at hnodup
  intro n hn hn'
  obtain ⟨r, hr, rfl⟩ := List.mem_map.1 hn'
  exact (List.nodup_append.1 hnodup).2.2 _ hn _ (List.mem_map_of_mem (hss r hr)) rfl

/-! ## The invariant -/

structure Tried (ts : List Task) (failed : List TaskName) (e : Execution) : Prop where
  inputs : ∀ t ∈ ts, t.kind = .reducing → t.inputs ≠ []
  again : ts.Pairwise (Again failed)
  /-- What has been given to a merge is over and does not come back. -/
  retired : ∀ t ∈ ts, ∀ n ∈ t.sources, Retired e n
  untaken : ∀ t ∈ ts, t.sources.Disjoint (e.untaken.map PartialResult.task)
  /-- Of the tasks issued for an outstanding group, all but the present one have failed. -/
  groups : ∀ n g, e.Merges n g → ∀ t ∈ ts, t.sources.Disjoint (g.inputs.map PartialResult.task) ∨
    g.inputs = t.inputs ∧ (t.name = n ∨ t.name ∈ failed)
  tries : ∀ n g, e.Merges n g → g.inputs ≠ [] ∧
    triesOf g.inputs ts = g.attempts + 1 ∧ g.attempts ≤ e.policy.reducingRetries
  bound : ∀ rs, rs ≠ [] → triesOf rs ts ≤ e.policy.reducingRetries + 1

theorem Tried.later (h : Tried ts failed e) (hsub : failed ⊆ failed') : Tried ts failed' e where
  inputs := h.inputs
  again := h.again.imp fun hagain => hagain.mono hsub
  retired := h.retired
  untaken := h.untaken
  groups n g hg t ht := (h.groups n g hg t ht).imp_right fun ⟨hsame, hname⟩ =>
    ⟨hsame, hname.imp_right fun hmem => hsub hmem⟩
  tries := h.tries
  bound := h.bound

/-- A change without a merge issued: groups may go, and results come of tasks that are over. -/
theorem Tried.keep (h : Tried ts failed e) (ha : Accounts e ended us e')
    (hgroups : GroupsFrom e us e') (hus : ∀ t ∈ us, t.kind = .producing)
    (huntaken : ∀ r ∈ e'.untaken, r ∈ e.untaken ∨ r.task ∈ e.outstanding) :
    Tried (ts ++ us) failed e' := by
  have hmerges : ∀ n g, e'.Merges n g → e.Merges n g := by
    intro n g hg
    refine (hgroups n g hg).resolve_right fun ⟨t, ht, _, hw⟩ => ?_
    have hk := hus t ht
    rw [Task.kind, hw] at hk
    cases hk
  have hsources : ∀ t ∈ us, t.sources = [] := by
    intro t ht
    rw [Task.sources, Task.inputs_producing (hus t ht), List.map_nil]
  refine ⟨?inputs, ?again, ?retired, ?untaken, ?groups, ?tries, ?bound⟩
  case inputs =>
    refine List.forall_mem_append.2 ⟨h.inputs, fun t ht hk => ?_⟩
    cases (hus t ht).symm.trans hk
  case again =>
    refine List.pairwise_append.2 ⟨h.again, ?_, fun t _ u hu => .inl (by simp [hsources u hu])⟩
    exact List.pairwise_of_forall_mem_list fun t ht u _ => .inl (by simp [hsources t ht])
  case retired =>
    refine List.forall_mem_append.2 ⟨fun t ht n hn => (h.retired t ht n hn).of_accounts ha, ?_⟩
    intro t ht n hn
    simp [hsources t ht] at hn
  case untaken =>
    refine List.forall_mem_append.2 ⟨fun t ht n hn hn' => ?_, fun t ht => by simp [hsources t ht]⟩
    obtain ⟨r, hr, rfl⟩ := List.mem_map.1 hn'
    -- a new result is of a task that was outstanding, which no earlier merge can have taken
    rcases huntaken r hr with hr | hout
    · exact h.untaken t ht hn (List.mem_map_of_mem hr)
    · exact (h.retired t ht _ hn).1 hout
  case groups =>
    intro n g hg
    exact List.forall_mem_append.2 ⟨h.groups n g (hmerges n g hg),
      fun t ht => .inl (by simp [hsources t ht])⟩
  case tries =>
    intro n g hg
    obtain ⟨hne, htries, hle⟩ := h.tries n g (hmerges n g hg)
    rw [triesOf_append_producing ts hus hne, ha.terms.policy]
    exact ⟨hne, htries, hle⟩
  case bound =>
    intro rs hne
    rw [triesOf_append_producing ts hus hne, ha.terms.policy]
    exact h.bound rs hne

/-- A merge is issued: of a group that is new, or of one that has failed. -/
theorem Tried.issue (h : Tried ts failed e) (ha : Accounts e ended [u] e')
    (hgroups : GroupsFrom e [u] e') (hs : Sound e) (hf : Filed e') (hnew : e'.Merges u.name g)
    (hinputs : u.inputs = g.inputs) (hne : g.inputs ≠ [])
    (huntaken : ∀ r ∈ e'.untaken, r ∈ e.untaken) (hagain : ∀ t ∈ ts, Again failed t u)
    (hcount : triesOf g.inputs ts = g.attempts) (hle : g.attempts ≤ e.policy.reducingRetries) :
    Tried (ts ++ [u]) failed e' := by
  have hmerges : ∀ n g, n ≠ u.name → e'.Merges n g → e.Merges n g := by
    intro n g hn hg
    refine (hgroups n g hg).resolve_right fun ⟨t, ht, hname, _⟩ => hn ?_
    rw [← hname, List.mem_singleton.1 ht]
  have hsame : ∀ g', e'.Merges u.name g' → g = g' := fun g' => hnew.unique (ha.sound hs)
  have hsources : u.sources = g.inputs.map PartialResult.task := by rw [Task.sources, hinputs]
  obtain ⟨rest, hperm, hwaiting, hothers⟩ := hnew.rest
  have hapart : ∀ n g', n ≠ u.name → e'.Merges n g' →
      u.sources.Disjoint (g'.inputs.map PartialResult.task) := by
    intro n g' hn hg'
    rw [hsources]
    exact hf.apart hperm (hothers n g' hn hg')
  refine ⟨?inputs, ?again, ?retired, ?untaken, ?groups, ?tries, ?bound⟩
  case inputs =>
    simp only [List.forall_mem_append, List.forall_mem_singleton]
    exact ⟨h.inputs, fun _ => by rwa [hinputs]⟩
  case again =>
    refine List.pairwise_append.2 ⟨h.again, List.pairwise_singleton _ _, fun t ht u' hu' => ?_⟩
    obtain rfl := List.mem_singleton.1 hu'
    exact hagain t ht
  case retired =>
    simp only [List.forall_mem_append, List.forall_mem_singleton, hsources]
    refine ⟨fun t ht n hn => (h.retired t ht n hn).of_accounts ha, fun n hn => ?_⟩
    obtain ⟨r, hr, rfl⟩ := List.mem_map.1 hn
    exact hf.retired r (hperm.mem_iff.2 (List.mem_append_left _ hr))
  case untaken =>
    simp only [List.forall_mem_append, List.forall_mem_singleton, hsources]
    refine ⟨fun t ht n hn hn' => ?_, hf.apart hperm hwaiting⟩
    obtain ⟨r, hr, rfl⟩ := List.mem_map.1 hn'
    exact h.untaken t ht hn (List.mem_map_of_mem (huntaken r hr))
  case groups =>
    intro n g' hg'
    simp only [List.forall_mem_append, List.forall_mem_singleton]
    -- the group of the new task: whatever was issued for it before, the new task repeats
    by_cases hn : n = u.name
    · subst hn
      obtain rfl := hsame g' hg'
      refine ⟨fun t ht => ?_, .inr ⟨hinputs.symm, .inl rfl⟩⟩
      rw [← hsources, ← hinputs]
      exact (hagain t ht).imp_right fun ⟨hsame, hmem⟩ => ⟨hsame, .inr hmem⟩
    · exact ⟨h.groups n g' (hmerges n g' hn hg'), .inl (hapart n g' hn hg')⟩
  case tries =>
    intro n g' hg'
    rw [triesOf_concat, ha.terms.policy]
    by_cases hn : n = u.name
    · subst hn
      obtain rfl := hsame g' hg'
      rw [if_pos hinputs]
      exact ⟨hne, congrArg (· + 1) hcount, hle⟩
    · obtain ⟨hne', htries, hle'⟩ := h.tries n g' (hmerges n g' hn hg')
      rw [if_neg (Task.inputs_ne (hapart n g' hn hg') hne')]
      exact ⟨hne', htries, hle'⟩
  case bound =>
    intro rs hrs
    rw [triesOf_concat, ha.terms.policy]
    by_cases heq : u.inputs = rs
    · rw [if_pos heq, ← heq, hinputs, hcount]
      omega
    · rw [if_neg heq]
      exact h.bound rs hrs

/-- A group is formed of results that no merge has taken: no task has been issued for it. -/
theorem Tried.form (h : Tried ts failed e) (hs : Sound e)
    (ha : Accounts e [] [e.mergeTask { inputs := rs }] e')
    (hgroups : GroupsFrom e [e.mergeTask { inputs := rs }] e') (hf : Filed e')
    (hnew : e'.Merges e.freshName { inputs := rs }) (hne : rs ≠ [])
    (huntaken : ∀ r ∈ e'.untaken, r ∈ e.untaken) (hrs : ∀ r ∈ rs, r ∈ e.untaken) :
    Tried (ts ++ [e.mergeTask { inputs := rs }]) failed e' := by
  have hdisjoint : ∀ t ∈ ts, t.sources.Disjoint (rs.map PartialResult.task) := by
    intro t ht n hn hn'
    obtain ⟨r, hr, rfl⟩ := List.mem_map.1 hn'
    exact h.untaken t ht hn (List.mem_map_of_mem (hrs r hr))
  refine h.issue ha hgroups hs hf hnew rfl hne huntaken
    (fun t ht => .inl (hdisjoint t ht)) ?_ (Nat.zero_le _)
  exact List.countP_eq_zero.2 fun t ht => by simpa using Task.inputs_ne (hdisjoint t ht) hne

theorem Issues.tried (hi : Issues e us e') (hs : Sound e) (hf : Filed e) (h : Tried ts failed e) :
    Tried (ts ++ us) failed e' := by
  induction hi generalizing ts with
  | nothing => simpa using h
  | @merge e e' us hlast hne _ ih =>
    have ha := withMerge_accounts hs
    have hs' := ha.sound hs
    have hf' : Filed e.withMerge := (Issues.merge hlast hne .nothing).filed hs hf
    have hnew : e.withMerge.Merges e.freshName { inputs := e.unreduced } :=
      .inl ((OrderedMap.find?_insert _ _ _ _).trans (if_pos rfl))
    have hformed := h.form hs ha (withMerge_groups e) hf' hnew hne
      (fun r hr => List.mem_append_right _ hr) fun r hr => List.mem_append_left _ hr
    have := ih hs' hf' hformed
    rwa [List.append_assoc] at this
  | @last e hlast ht hp hm hu hne =>
    have hi := Issues.last hlast ht hp hm hu hne
    refine h.form hs (hi.accounts hs) hi.groups (hi.filed hs hf) (.inr rfl) hne (fun r hr => ?_)
      fun r hr => List.mem_append_right _ hr
    rw [untaken, withLast, List.append_nil] at hr
    exact List.mem_append_left _ hr
  | produce hlast hle =>
    have hi := Issues.produce hlast hle
    refine h.keep (hi.accounts hs) hi.groups (fun t ht => ?_) fun _ hr => .inl hr
    obtain ⟨i, _, rfl⟩ := List.mem_map.1 ht
    rfl

theorem advance_tried (hs : Sound e) (hf : Filed e) (h : Tried ts failed e) (ctx : Context) :
    Tried (ts ++ tasksOf (e.advance ctx).2) failed (e.advance ctx).1 := by
  rcases advance_issues e ctx with ⟨reason, ha⟩ | ⟨us, e', ha, hi⟩
  · have haccounts := advance_accounts hs ctx
    rw [ha] at haccounts ⊢
    exact h.keep haccounts (fun _ _ hg => .inl hg) (List.forall_mem_nil _) fun _ hr => .inl hr
  · rw [ha, tasksOf_enqueue]
    exact hi.tried hs hf h

/-! ## Calls -/

/-- The output of a merge is the only result that its end adds. -/
theorem mem_untaken_kept {r : PartialResult} {c : Completion} {w : Nat}
    (hr : r ∈ e.unreduced ++ (e.reduced ++ kept (c.output w))) :
    r ∈ e.untaken ∨ r.task = c.task := by
  rw [← List.append_assoc] at hr
  rcases List.mem_append.1 hr with hr | hr
  · exact .inl hr
  · unfold kept at hr
    split at hr
    · obtain rfl := List.mem_singleton.1 hr
      exact .inr rfl
    · cases hr

/-- The tasks issued for a group that fails have all failed. -/
theorem Tried.again_of_failed (h : Tried ts failed e) (hg : e.Merges n g)
    (hover : e.failedBy call = [n]) (hu : u.inputs = g.inputs) :
    ∀ t ∈ ts, Again (failed ++ e.failedBy call) t u := by
  intro t ht
  rw [hover, Again, Task.sources, Task.sources, hu]
  refine (h.groups n g hg t ht).imp_right fun ⟨hsame, hname⟩ => ⟨hsame, ?_⟩
  rcases hname with rfl | hmem
  · exact List.mem_append_right _ (List.mem_singleton_self _)
  · exact List.mem_append_left _ hmem

theorem Step.tried (hstep : Step e call lost missed (e.overBy call) change next) (hs : Sound e)
    (hf : Filed e) (h : Tried ts failed e) :
    Tried (ts ++ tasksOf change.2) (failed ++ e.failedBy call) change.1 := by
  have ha := hstep.accounts hs
  have hgroups := hstep.groups
  have hf' := hstep.filed hs hf
  have hlater := h.later (List.subset_append_left failed (e.failedBy call))
  generalize hover : e.overBy call = ended at hstep ha
  cases hstep with
  | ignored | started | fetched | missed | abandoned | completed | finalAbandoned =>
    exact hlater.keep ha hgroups (List.forall_mem_nil _) fun _ hr => .inl hr
  | @produced c _ ht hp =>
    rw [tasksOf_adaptTimeout] at ha hgroups ⊢
    refine hlater.keep ha hgroups (List.forall_mem_nil _) fun r hr => ?_
    simp only [untaken, List.mem_append, List.mem_singleton] at hr ⊢
    rcases hr with (hr | rfl) | hr
    · exact .inl (.inl hr)
    · exact .inr (mem_outstanding.2 (.inl hp))
    · exact .inl (.inr hr)
  | merged _ _ hg =>
    refine hlater.keep ha hgroups (List.forall_mem_nil _) fun r hr => ?_
    refine (mem_untaken_kept hr).imp_right fun htask => ?_
    rw [htask]
    exact mem_outstanding.2 (.inr (.inl (OrderedMap.mem_keys_iff.2 ⟨_, hg⟩)))
  | cutShort _ _ _ hlast =>
    refine hlater.keep ha hgroups (List.forall_mem_nil _) fun r hr => ?_
    refine (mem_untaken_kept hr).imp_right fun htask => ?_
    rw [htask]
    exact mem_outstanding.2 (.inr (.inr ⟨_, hlast⟩))
  | @retried task reason ctx g ht hp hg hr =>
    obtain ⟨hne, htries, _⟩ := h.tries task g (.inl hg)
    have hnew : ((e.merging.erase task).insert e.freshName
        { g with attempts := g.attempts + 1 }).find? e.freshName = _ :=
      (OrderedMap.find?_insert _ _ _ _).trans (if_pos rfl)
    exact hlater.issue ha hgroups hs hf' (.inl hnew) rfl hne (fun _ hr => hr)
      (h.again_of_failed (.inl hg) hover rfl) htries hr
  | @finalRetried task reason ctx g ht hp hg hlast hr =>
    obtain ⟨hne, htries, _⟩ := h.tries task g (.inr hlast)
    exact hlater.issue ha hgroups hs hf' (.inr rfl) rfl hne (fun _ hr => hr)
      (h.again_of_failed (.inr hlast) hover rfl) htries hr

theorem respond_tried (hs : Sound e) (hf : Filed e) (h : Tried ts failed e) (call : Call) :
    Tried (ts ++ tasksOf (e.respond call).2) (failed ++ e.failedBy call) (e.respond call).1 := by
  obtain ⟨change, next, hstep, heq⟩ := respond_step e call
  have hchange := hstep.tried hs hf h
  rw [heq]
  cases next with
  | none => exact hchange
  | some ctx =>
    have hs' := (hstep.accounts hs).sound hs
    simp only [proceed, andAdvance, tasksOf_append, ← List.append_assoc]
    exact advance_tried hs' (hstep.filed hs hf) hchange ctx

/-- The failure of a merge is answered by another one of the same group, as often as the policy
allows. -/
theorem respond_again (hs : Sound e) (hf : Filed e) (h : Tried ts failed e)
    (ht : e.isTerminal = false) (hm : e.Merges n g) (reason : String) (ctx : Context) :
    (∃ t ∈ tasksOf (e.respond (.fail n reason ctx)).2, t.inputs = g.inputs) ↔
      triesOf g.inputs ts ≤ e.policy.reducingRetries := by
  obtain ⟨hne, htries, _⟩ := h.tries n g hm
  constructor
  · rintro ⟨t, ht, hsame⟩
    -- with this one, there must not be too many
    have hbound := (respond_tried hs hf h (.fail n reason ctx)).bound g.inputs hne
    have hpos : 0 < triesOf g.inputs (tasksOf (e.respond (.fail n reason ctx)).2) :=
      List.countP_pos_iff.2 ⟨t, ht, decide_eq_true hsame⟩
    rw [(respond_accounts hs _).terms.policy, triesOf, List.countP_append] at hbound
    exact Nat.le_of_lt_succ (Nat.lt_of_lt_of_le (Nat.lt_add_of_pos_right hpos) hbound)
  · intro hle
    rw [htries] at hle
    obtain ⟨change, next, hstep, heq⟩ := respond_step e (.fail n reason ctx)
    have hover : e.overBy (.fail n reason ctx) = [n] := by simp [overBy, ht, hm.outstanding]
    rw [hover] at hstep
    rw [heq]
    generalize e.lostBy (.fail n reason ctx) = lost at hstep
    generalize e.missedBy (.fail n reason ctx) = missed at hstep
    cases hstep with
    | missed _ hp => exact absurd hp (hm.not_producing hs)
    | retried _ _ hg _ =>
      obtain rfl := hm.unique hs (.inl hg)
      exact ⟨_, List.mem_cons_self, rfl⟩
    | abandoned _ _ hg hr =>
      obtain rfl := hm.unique hs (.inl hg)
      omega
    | finalRetried _ _ _ hlast _ =>
      obtain rfl := hm.unique hs (.inr hlast)
      exact ⟨_, List.mem_cons_self, rfl⟩
    | finalAbandoned _ _ _ hlast hr =>
      obtain rfl := hm.unique hs (.inr hlast)
      omega

/-! ## Runs -/

theorem create_tried (policy : ExecutionPolicy) (name : ExecutionName) (session : SessionName)
    (parallel : Nat) (fetches : Bool) (now : Nat) :
    Tried [] [] (create policy name session parallel fetches now) := by
  have hnone : ∀ n g, ¬ (create policy name session parallel fetches now).Merges n g := by
    intro n g hg
    rcases hg with hg | hg <;> cases hg
  exact ⟨List.forall_mem_nil _, .nil, List.forall_mem_nil _, List.forall_mem_nil _,
    fun _ _ _ => List.forall_mem_nil _, fun n g hg => absurd hg (hnone n g),
    fun _ _ => Nat.zero_le _⟩

theorem after_tried (policy : ExecutionPolicy) (name : ExecutionName) (session : SessionName)
    (parallel : Nat) (fetches : Bool) (now : Nat) (past : List Call) :
    Tried ((create policy name session parallel fetches now).issued past)
      ((create policy name session parallel fetches now).failedTasks past)
      ((create policy name session parallel fetches now).after past) := by
  have hs := create_sound policy name session parallel fetches now
  induction past with
  | nil => exact create_tried policy name session parallel fetches now
  | cons call past ih =>
    have hfiled := after_filed policy name session parallel fetches now past
    simp only [issued, emitted, tasksOf_append] at ih ⊢
    exact respond_tried (after_sound hs past) hfiled ih call

end Execution
end RenderFarm
