import RenderFarm.Proofs.Execution.Leaves
import RenderFarm.Proofs.Execution.Records
import RenderFarm.Proofs.Execution.Seeds

/-!
# RenderFarm.Proofs.Execution.Provenance

No contribution is merged twice. In every run the partial results that an execution holds have no
leaf in common, and every leaf is a producing task whose success was accepted once.

* `Traced known made issued e`: the invariant, with the leaves of the outputs so far, the producing
  tasks made and the tasks issued.
* `contributions_distinct`: what it says of every run; the result stands for all the units asked
  for, each of a producing task of its own.
-/

namespace RenderFarm
namespace Execution

/-! ## What a call makes known -/

section Known

variable {e : Execution} {known : TaskName → List TaskName}

theorem leavesBy_retired {n : TaskName} (hn : n ∉ e.outstanding) (call : Call) :
    e.leavesBy known call n = known n := by
  have hp : n ∉ e.producing := fun h => hn (mem_outstanding.2 (.inl h))
  have hg : e.group? n = none := by
    cases hg : e.group? n with
    | none => rfl
    | some g => exact absurd (mem_outstanding_of_group? hg) hn
  cases call with
  | finish => simp [leavesBy, hp, hg]
  | start | fail | fetched => rfl

theorem leavesBy_produced {c : Completion} {ctx : Context} (ht : e.isTerminal = false)
    (hp : c.task ∈ e.producing) : e.leavesBy known (.finish c ctx) c.task = [c.task] := by
  simp [leavesBy, ht, hp]

theorem leavesBy_merged {c : Completion} {ctx : Context} {g : MergeGroup}
    (ht : e.isTerminal = false) (hp : c.task ∉ e.producing) (hg : e.group? c.task = some g) :
    e.leavesBy known (.finish c ctx) c.task = g.inputs.flatMap fun r => known r.task := by
  simp [leavesBy, ht, hp, hg]

theorem mem_madeBy {call : Call} {n : TaskName} (hn : n ∈ e.madeBy call) :
    n ∈ e.producing ∧ n ∈ e.overBy call := by
  cases call with
  | finish c =>
    simp only [madeBy, overBy] at *
    split at hn
    · rename_i h
      cases List.mem_singleton.1 hn
      simp only [Bool.and_eq_true, decide_eq_true_eq] at h
      exact ⟨h.2, by simp [h.1, mem_outstanding.2 (.inl h.2)]⟩
    · cases hn
  | start | fail | fetched => cases hn

theorem madeBy_produced {c : Completion} {ctx : Context} (ht : e.isTerminal = false)
    (hp : c.task ∈ e.producing) : e.madeBy (.finish c ctx) = [c.task] := by
  simp [madeBy, ht, hp]

theorem madeBy_nodup (e : Execution) (call : Call) : (e.madeBy call).Nodup := by
  cases call with
  | finish => simp only [madeBy]; split <;> simp
  | start | fail | fetched => exact List.nodup_nil

end Known

/-! ## Holdings after a call -/

theorem Apart.credit {known known' : TaskName → List TaskName} {done : List TaskName}
    {rs ss hold new : List PartialResult} {r : PartialResult} (h : Apart known done hold)
    (hold' : hold.Perm (rs ++ ss)) (hnew : new.Perm (kept r ++ ss))
    (hk : ∀ r ∈ hold, known' r.task = known r.task)
    (hr : known' r.task = rs.flatMap fun r => known r.task) (hw : r.weight ≤ totalWeight rs) :
    Apart known' done new := by
  have h' := h.perm hold'
  have hk' : ∀ r ∈ ss, known' r.task = known r.task := fun r hr =>
    hk r (hold'.mem_iff.2 (List.mem_append_right _ hr))
  refine Apart.perm ?_ hnew.symm
  unfold kept
  split
  · rename_i hpos
    exact h'.merge hk' hr hpos hw
  · exact h'.right.congr hk' fun _ hn => hn

theorem Step.apart {e : Execution} {call : Call} {lost missed : Nat}
    {change : Execution × List Action} {next : Option Context} {known : TaskName → List TaskName}
    {done : List TaskName} (hstep : Step e call lost missed (e.overBy call) change next)
    (hs : Sound e) (h : Apart known done e.holdings)
    (hout : ∀ r ∈ e.holdings, r.task ∉ e.outstanding) (hdone : ∀ n ∈ done, n ∉ e.outstanding) :
    Apart (e.leavesBy known call) (done ++ e.madeBy call) change.1.holdings := by
  have hk : ∀ r ∈ e.holdings, e.leavesBy known call r.task = known r.task :=
    fun r hr => leavesBy_retired (hout r hr) call
  have hdone' : ∀ n ∈ done, n ∈ done ++ e.madeBy call := fun n hn => List.mem_append_left _ hn
  have hsame := h.congr hk hdone'
  generalize e.overBy call = ended at hstep
  cases hstep with
  | ignored | started | fetched | missed => exact hsame
  | @produced c _ ht hp =>
    have hnew : (c.output 1).task ∉ done := fun hn => hdone _ hn (mem_outstanding.2 (.inl hp))
    have hleaf := h.leaf hk (leavesBy_produced ht hp) rfl hnew
    rw [madeBy_produced ht hp]
    exact hleaf.perm (holdings_unreduced e [c.output 1]).symm
  | @merged c _ g ht hp hg =>
    have hgr := group?_merging hg
    have hold := holdings_merging hg
    have hnew := holdings_reduced { e with merging := e.merging.erase c.task }
      (kept (c.output (creditedWeight g c.weight)))
    have hcredited := h.credit hold hnew hk (leavesBy_merged ht hp hgr) (creditedWeight_le g c.weight)
    exact hcredited.congr (fun _ _ => rfl) hdone'
  | completed _ _ _ hf => exact (hsame.perm (holdings_final hf)).right
  | @cutShort c _ g ht hp hg hf _ =>
    have hgr := group?_final hg hf
    have hold := holdings_final hf
    have hnew := holdings_reduced { e with finalMerge := none }
      (kept (c.output (creditedWeight g c.weight)))
    have hcredited := h.credit hold hnew hk (leavesBy_merged ht hp hgr) (creditedWeight_le g c.weight)
    exact hcredited.congr (fun _ _ => rfl) hdone'
  | retried _ _ hg _ => exact hsame.perm (holdings_again _ hg hs.fresh_merging)
  | abandoned _ _ hg _ => exact (hsame.perm (holdings_merging hg)).right
  | finalRetried _ _ _ hf _ =>
    have hheld := hsame
    simp only [holdings, lastInputs, hf] at hheld
    exact hheld
  | finalAbandoned _ _ _ hf _ => exact (hsame.perm (holdings_final hf)).right

/-- The result of an execution that ends is made of the inputs of its final merge. -/
theorem Step.apart_result {e : Execution} {call : Call} {lost missed m l : Nat}
    {ended : List TaskName} {change : Execution × List Action} {next : Option Context}
    {known : TaskName → List TaskName} {done : List TaskName} {r : PartialResult}
    (hstep : Step e call lost missed ended change next) (hb : Balanced m l e)
    (h : Apart known done e.holdings) (hne : ∀ n g, e.finalMerge = some (n, g) → g.inputs ≠ [])
    (hr : change.1.result = some r) : Apart (e.leavesBy known call) done [r] := by
  cases hstep with
  | @completed c _ g ht hp hg hf _ =>
    have hgr := group?_final hg hf
    have hinputs : Apart known done (g.inputs ++ []) := by
      rw [List.append_nil, ← hb.holdings_last hf]
      exact h
    have hpos : 0 < g.weight := (hinputs.perm (by simp)).units_pos (hne _ _ hf)
    cases hr
    exact hinputs.merge (by simp) (leavesBy_merged ht hp hgr) hpos (Nat.le_refl _)
  | _ => exact absurd (hb.unset.symm.trans hr) (by simp)

/-! ## Moving forward -/

theorem Issues.result {e e' : Execution} {ts : List Task} (h : Issues e ts e') :
    e'.result = e.result := by
  induction h with
  | nothing | last | produce => rfl
  | merge _ _ _ ih => exact ih

theorem result_advance (e : Execution) (ctx : Context) :
    (e.advance ctx).1.result = e.result := by
  rcases advance_issues e ctx with ⟨reason, ha⟩ | ⟨ts, e', ha, hi⟩
  · rw [ha]
    rfl
  · rw [ha]
    exact hi.result

theorem Issues.last_inputs {e e' : Execution} {ts : List Task} (h : Issues e ts e')
    (hne : ∀ n g, e.finalMerge = some (n, g) → g.inputs ≠ []) :
    ∀ n g, e'.finalMerge = some (n, g) → g.inputs ≠ [] := by
  induction h with
  | nothing | produce => exact hne
  | merge _ _ _ ih => exact ih hne
  | last _ _ _ _ _ hr =>
    intro n g hg
    cases hg
    exact hr

theorem Step.last_inputs {e : Execution} {call : Call} {lost missed : Nat} {ended : List TaskName}
    {change : Execution × List Action} {next : Option Context}
    (hstep : Step e call lost missed ended change next)
    (hne : ∀ n g, e.finalMerge = some (n, g) → g.inputs ≠ []) :
    ∀ n g, change.1.finalMerge = some (n, g) → g.inputs ≠ [] := by
  cases hstep with
  | completed | cutShort | finalAbandoned =>
    intro n g hg
    cases hg
  | finalRetried _ _ _ hf _ =>
    have hinputs := hne _ _ hf
    intro n g hg
    cases hg
    exact hinputs
  | _ => exact hne

theorem last_inputs_advance {e : Execution} (ctx : Context)
    (hne : ∀ n g, e.finalMerge = some (n, g) → g.inputs ≠ []) :
    ∀ n g, (e.advance ctx).1.finalMerge = some (n, g) → g.inputs ≠ [] := by
  rcases advance_issues e ctx with ⟨reason, ha⟩ | ⟨ts, e', ha, hi⟩
  · rw [ha]
    exact hne
  · rw [ha]
    exact hi.last_inputs hne

/-! ## Runs -/

structure Traced (known : TaskName → List TaskName) (done : List TaskName) (e : Execution) :
    Prop where
  held : Apart known done e.holdings
  result : ∀ r, e.result = some r → Apart known done [r]
  last : ∀ n g, e.finalMerge = some (n, g) → g.inputs ≠ []
  tasks : ∀ r ∈ e.holdings, Retired e r.task
  made : ∀ n ∈ done, Retired e n
  nodup : done.Nodup

theorem respond_holdings {e : Execution} {m l : Nat} (hs : Sound e) (hb : Balanced m l e)
    {known : TaskName → List TaskName} {done : List TaskName} (h : Traced known done e)
    (call : Call) :
    Apart (e.leavesBy known call) (done ++ e.madeBy call) (e.respond call).1.holdings ∧
    (∀ r, (e.respond call).1.result = some r → Apart (e.leavesBy known call) done [r]) ∧
    ∀ n g, (e.respond call).1.finalMerge = some (n, g) → g.inputs ≠ [] := by
  obtain ⟨change, next, hstep, heq⟩ := respond_step e call
  have hs' := (hstep.accounts hs).sound hs
  have hheld := hstep.apart hs h.held (fun r hr => (h.tasks r hr).1) fun n hn => (h.made n hn).1
  have hresult := fun r => hstep.apart_result (r := r) hb h.held h.last
  have hlast := hstep.last_inputs h.last
  rw [heq]
  cases next with
  | none => exact ⟨hheld, hresult, hlast⟩
  | some ctx =>
    have hperm := holdings_advance hs' ctx
    refine ⟨hheld.perm hperm.symm, fun r hr => hresult r ?_, last_inputs_advance ctx hlast⟩
    rw [← result_advance change.1 ctx]
    exact hr

theorem respond_traced {e : Execution} {m l : Nat} (hs : Sound e) (hb : Balanced m l e)
    {known : TaskName → List TaskName} {done : List TaskName} (h : Traced known done e)
    (call : Call) :
    Traced (e.leavesBy known call) (done ++ e.madeBy call) (e.respond call).1 := by
  have ha := respond_accounts hs call
  obtain ⟨hheld, hresult, hlast⟩ := respond_holdings hs hb h call
  refine ⟨hheld, fun r hr => ?_, hlast, respond_retired hs h.tasks call, fun n hn => ?_, ?_⟩
  · exact (hresult r hr).congr (fun _ _ => rfl) fun n hn => List.mem_append_left _ hn
  · rcases List.mem_append.1 hn with hn | hn
    · exact (h.made n hn).of_accounts ha
    · exact .of_over ha hs (mem_madeBy hn).2
  · refine List.nodup_append.2 ⟨h.nodup, madeBy_nodup e call, ?_⟩
    intro n hn n' hn' he
    subst he
    exact (h.made n hn).1 (mem_outstanding.2 (.inl (mem_madeBy hn').1))

theorem leavesBy_terminal {e : Execution} (ht : e.isTerminal = true)
    (known : TaskName → List TaskName) (call : Call) : e.leavesBy known call = known := by
  funext n
  cases call <;> simp [leavesBy, ht]

theorem madeBy_terminal {e : Execution} (ht : e.isTerminal = true) (call : Call) :
    e.madeBy call = [] := by
  cases call <;> simp [madeBy, ht]

theorem create_traced (policy : ExecutionPolicy) (name : ExecutionName) (session : SessionName)
    (parallel : Nat) (fetches : Bool) (now : Nat) :
    Traced (fun _ => []) [] (create policy name session parallel fetches now) := by
  refine ⟨.nil, ?_, ?_, ?_, by simp, List.nodup_nil⟩
  · intro r hr
    cases hr
  · intro n g hg
    cases hg
  · intro r hr
    cases hr

theorem after_traced {e : Execution} (hs : Sound e) (hb : Balanced 0 0 e)
    (h : Traced (fun _ => []) [] e) (past : List Call) :
    Traced (e.leaves past) (e.made past) (e.after past) := by
  induction past with
  | nil => exact h
  | cons call past ih =>
    cases hover : (e.after past).isTerminal with
    | true =>
      simp only [leaves, made, after, leavesBy_terminal hover, madeBy_terminal hover,
        respond_terminal hover, List.append_nil]
      exact ih
    | false =>
      have hbalanced := (after_books hs hb past).running hover
      exact respond_traced (after_sound hs past) hbalanced ih call

/-- A task whose success was accepted is a producing task that was issued. -/
theorem made_issued {e : Execution} (hnone : e.producing = []) (past : List Call) {n : TaskName}
    (hn : n ∈ e.made past) : ∃ t ∈ e.issued past, t.name = n ∧ t.kind = .producing := by
  induction past with
  | nil => cases hn
  | cons call past ih =>
    have hmono : ∀ t ∈ e.issued past, t ∈ e.issued (call :: past) := by
      intro t ht
      simp only [issued, emitted, tasksOf_append]
      exact List.mem_append_left _ ht
    rcases List.mem_append.1 hn with hn | hn
    · obtain ⟨t, ht, h⟩ := ih hn
      exact ⟨t, hmono t ht, h⟩
    · rcases (after_sows e past).producing n (mem_madeBy hn).1 with hp | ⟨t, ht, h⟩
      · rw [hnone] at hp
        cases hp
      · exact ⟨t, hmono t ht, h⟩

/-- What a partial result is backed by: as many producing tasks as it stands for units or more,
each of a seed of its own, each with its success accepted once. -/
structure Backed (e : Execution) (past : List Call) (r : PartialResult) : Prop where
  distinct : (e.leaves past r.task).Nodup
  once : ∀ n ∈ e.leaves past r.task, (e.made past).count n = 1
  weight : 1 ≤ r.weight ∧ r.weight ≤ (e.leaves past r.task).length
  sources : ∃ ts : List Task, ts.Sublist (e.issued past) ∧
    (ts.map Task.name).Perm (e.leaves past r.task) ∧
    (∀ t ∈ ts, t.kind = .producing ∧ t.execution = e.name) ∧ (ts.map Task.seed?).Nodup

/-- The contributions to an execution after a run. -/
structure Distinct (e : Execution) (past : List Call) : Prop where
  held : ∀ r ∈ (e.after past).holdings, Backed e past r
  apart : (e.after past).holdings.Pairwise fun r r' =>
    (e.leaves past r.task).Disjoint (e.leaves past r'.task)
  fresh : ((e.issued past).map Task.name).Nodup
  result : ∀ r, (e.after past).snapshot.result = some r →
    Backed e past r ∧ r.weight = e.parallel

theorem map_seed? {ts : List Task} (h : ∀ t ∈ ts, t.kind = .producing) :
    ts.map Task.seed? = (seedsOf ts).map some := by
  induction ts with
  | nil => rfl
  | cons t ts ih =>
    have ht := h t List.mem_cons_self
    have htail := ih fun t' ht' => h t' (List.mem_cons_of_mem _ ht')
    obtain ⟨name, session, execution, work, timeout⟩ := t
    cases work with
    | produce seed source => simpa [seedsOf, Task.seed?] using htail
    | reduce inputs => cases ht

/-- Producing tasks of an execution with different names have different seeds. -/
theorem exists_sources {e : Execution} (hs : Sound e) (hnone : e.producing = [])
    (past : List Call) {ns : List TaskName} (hns : ns.Nodup) (hmade : ∀ n ∈ ns, n ∈ e.made past) :
    ∃ ts : List Task, ts.Sublist (e.issued past) ∧ (ts.map Task.name).Perm ns ∧
      (∀ t ∈ ts, t.kind = .producing ∧ t.execution = e.name) ∧ (ts.map Task.seed?).Nodup := by
  obtain ⟨ended, ha⟩ := after_accounts hs past
  have hnames := ha.names_nodup
  refine ⟨(e.issued past).filter fun t => t.name ∈ ns, List.filter_sublist, ?_⟩
  have hsub := List.filter_sublist (l := e.issued past) (p := fun t => decide (t.name ∈ ns))
  have hkind : ∀ t ∈ (e.issued past).filter fun t => t.name ∈ ns, t.kind = .producing := by
    intro t ht
    obtain ⟨ht, hn⟩ := List.mem_filter.1 ht
    obtain ⟨t', ht', hname, hkind⟩ := made_issued hnone past (hmade _ (by simpa using hn))
    rwa [List.inj_on_of_nodup_map hnames ht' ht hname] at hkind
  refine ⟨?_, fun t ht => ⟨hkind t ht, (ha.owner t (hsub.subset ht)).1⟩, ?_⟩
  · refine (List.perm_ext_iff_of_nodup (hnames.sublist (hsub.map _)) hns).2 fun n => ?_
    simp only [List.mem_map, List.mem_filter, decide_eq_true_eq]
    constructor
    · rintro ⟨t, ⟨_, hn⟩, rfl⟩
      exact hn
    · intro hn
      obtain ⟨t, ht, rfl, _⟩ := made_issued hnone past (hmade n hn)
      exact ⟨t, ⟨ht, hn⟩, rfl⟩
  · have hseeds : (seedsOf (e.issued past)).Nodup := by
      rw [(after_sows e past).seeds]
      exact List.nodup_range' 1
    rw [map_seed? hkind]
    exact (hseeds.sublist (hsub.filterMap _)).map fun _ _ => Option.some.inj

theorem Traced.backed {e : Execution} (hs : Sound e) (hnone : e.producing = []) {past : List Call}
    (h : Traced (e.leaves past) (e.made past) (e.after past)) {rs : List PartialResult}
    (hrs : Apart (e.leaves past) (e.made past) rs) {r : PartialResult} (hr : r ∈ rs) :
    Backed e past r where
  distinct := (List.nodup_flatMap.1 hrs.nodup).1 r hr
  once := fun n hn => List.count_eq_one_of_mem h.nodup (hrs.made r hr n hn)
  weight := hrs.weight r hr
  sources := exists_sources hs hnone past ((List.nodup_flatMap.1 hrs.nodup).1 r hr)
    (hrs.made r hr)

/-- No contribution is merged twice, and the result of an execution stands for all the units asked
for. -/
theorem contributions_distinct (policy : ExecutionPolicy) (name : ExecutionName)
    (session : SessionName) (parallel : Nat) (fetches : Bool) (now : Nat) (past : List Call) :
    Distinct (create policy name session parallel fetches now) past := by
  have hs := create_sound policy name session parallel fetches now
  have hb := create_balanced policy name session parallel fetches now
  have h := after_traced hs hb (create_traced policy name session parallel fetches now) past
  obtain ⟨ended, ha⟩ := after_accounts hs past
  refine ⟨fun r hr => h.backed hs rfl h.held hr, (List.nodup_flatMap.1 h.held.nodup).2,
    ha.names_nodup, fun r hr => ⟨h.backed hs rfl (h.result r hr) (List.mem_singleton_self r), ?_⟩⟩
  rw [(after_books hs hb past).result r hr, (after_terms hs past).parallel]

theorem contributions_distinct_sample :
    Distinct sample sampleRun ∧
    sample.leaves sampleRun ⟨"e-task6"⟩ = [⟨"e-task2"⟩, ⟨"e-task3"⟩] :=
  ⟨contributions_distinct _ _ _ _ _ _ _, by decide +kernel⟩

end Execution
end RenderFarm
