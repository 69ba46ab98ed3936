import RenderFarm.Proofs.Execution.Holdings

/-!
# RenderFarm.Proofs.Execution.Conservation

Conservation of weight. Of the producing tasks that are over, each is part of a partial result that
the execution holds, or has failed, or was lost; the target grows by what fails and by what is lost.

* `Balanced m l e`: the books of an execution that is not over, after `m` failed producing tasks
  and a lost weight of `l`.
* `Books m l e`: the same for any execution; one that is over has a result of the whole weight.
* `weight_conserved`: in every run, what is held and what is still to be produced make up the units
  asked for.
-/

namespace RenderFarm
namespace Execution

/-- The books of an execution that is not over. -/
structure Balanced (m l : Nat) (e : Execution) : Prop where
  law : e.finished = totalWeight e.holdings + m + l
  target : e.target = e.parallel + m + l
  room : e.finished + e.producing.length ≤ e.target
  failures : e.failures = m
  unset : e.result = none
  last : e.finalMerge ≠ none → e.producing = [] ∧ e.merging.entries = [] ∧ e.unreduced = [] ∧
    e.reduced = [] ∧ e.target ≤ e.finished

/-- The books of any execution. -/
structure Books (m l : Nat) (e : Execution) : Prop where
  running : e.isTerminal = false → Balanced m l e
  result : ∀ r, e.result = some r → r.weight = e.parallel

theorem Balanced.books {m l : Nat} {e : Execution} (h : Balanced m l e) : Books m l e :=
  ⟨fun _ => h, fun r hr => absurd (h.unset.symm.trans hr) (by simp)⟩

theorem Books.failed {m l : Nat} {e : Execution} (ht : e.isTerminal = true) (hr : e.result = none) :
    Books m l e :=
  ⟨fun h => absurd (ht.symm.trans h) (by simp), fun r h => absurd (hr.symm.trans h) (by simp)⟩

namespace Balanced

variable {m l : Nat} {e : Execution}

theorem no_last_of_producing (h : Balanced m l e) {n : TaskName} (hn : n ∈ e.producing) :
    e.finalMerge = none := by
  false_or_by_contra
  rename_i hf
  rw [(h.last hf).1] at hn
  cases hn

theorem no_last_of_merging (h : Balanced m l e) {n : TaskName} {g : MergeGroup}
    (hg : e.merging.find? n = some g) : e.finalMerge = none := by
  false_or_by_contra
  rename_i hf
  have := (OrderedMap.entries_perm_erase hg).length_eq
  simp [(h.last hf).2.1] at this

/-- While the final merge is outstanding, nothing else is held. -/
theorem holdings_last (h : Balanced m l e) {n : TaskName} {g : MergeGroup}
    (hf : e.finalMerge = some (n, g)) : e.holdings = g.inputs := by
  obtain ⟨_, hm, hu, hr, _⟩ := h.last (by simp [hf])
  simp [holdings, lastInputs, hf, hu, hr, OrderedMap.values, hm]

/-! ## Issuing -/

theorem issues {e' : Execution} {ts : List Task} (hi : Issues e ts e') (hs : Sound e)
    (h : Balanced m l e) : Balanced m l e' := by
  induction hi with
  | nothing => exact h
  | @merge e e' ts hf hu hi ih =>
    have hsound := (withMerge_accounts hs).sound hs
    refine ih hsound ?_
    have hh := totalWeight_perm ((Issues.merge hf hu .nothing).holdings hs)
    refine ⟨?_, h.target, h.room, h.failures, h.unset, fun hn => absurd hf hn⟩
    rw [hh]
    exact h.law
  | last hf ht hp hm hu hr =>
    have hh := totalWeight_perm ((Issues.last hf ht hp hm hu hr).holdings hs)
    refine ⟨?_, h.target, h.room, h.failures, h.unset, fun _ => ⟨hp, hm, hu, rfl, ht⟩⟩
    rw [hh]
    exact h.law
  | @produce e n hf hn =>
    have hlen : (e.startProducing n).1.producing.length = e.producing.length + n := by
      simp [startProducing]
    refine ⟨h.law, h.target, ?_, h.failures, h.unset, fun hn => absurd hf hn⟩
    have hroom := h.room
    show e.finished + (e.startProducing n).1.producing.length ≤ e.target
    omega

theorem advance (hs : Sound e) (h : Balanced m l e) (ctx : Context) :
    Books m l (e.advance ctx).1 := by
  rcases advance_issues e ctx with ⟨reason, ha⟩ | ⟨ts, e', ha, hi⟩
  · rw [ha]
    exact .failed rfl h.unset
  · rw [ha]
    exact (h.issues hi hs).books

/-! ## Calls -/

/-- A producing task that is over leaves balanced books if it either adds a unit to what is held or
counts as a failure that the target makes up for. -/
theorem resolve {e' : Execution} {n : TaskName} {failed : Nat} (h : Balanced m l e)
    (hn : n ∈ e.producing) (terms : SameTerms e e')
    (units : totalWeight e'.holdings + failed = totalWeight e.holdings + 1)
    (target : e'.target = e.target + failed) (finished : e'.finished = e.finished + 1)
    (producing : e'.producing = e.producing.erase n) (failures : e'.failures = e.failures + failed)
    (unset : e'.result = e.result) (last : e'.finalMerge = e.finalMerge) :
    Balanced (m + failed) l e' := by
  have hlen : (e.producing.erase n).length + 1 = e.producing.length :=
    (List.perm_cons_erase hn).length_eq.symm
  have hlaw := h.law
  have htarget := h.target
  have hroom := h.room
  refine ⟨?_, ?_, ?_, ?_, ?_, fun hl => ?_⟩
  · omega
  · rw [target, terms.parallel]
    omega
  · rw [target, finished, producing]
    omega
  · rw [failures, h.failures]
  · rw [unset, h.unset]
  · rw [last] at hl
    exact absurd (h.no_last_of_producing hn) hl

/-- A merge that is over leaves books that are balanced if what is lost of its inputs is added to
the target. -/
theorem credit {e' : Execution} {lost : Nat} (h : Balanced m l e) (terms : SameTerms e e')
    (units : totalWeight e'.holdings + lost = totalWeight e.holdings)
    (target : e'.target = e.target + lost) (finished : e'.finished = e.finished)
    (producing : e'.producing = e.producing) (failures : e'.failures = e.failures)
    (unset : e'.result = e.result) (last : e'.finalMerge = none) : Balanced m (l + lost) e' := by
  have hlaw := h.law
  have htarget := h.target
  have hroom := h.room
  refine ⟨?_, ?_, ?_, ?_, ?_, fun hn => absurd last hn⟩
  · omega
  · rw [target, terms.parallel]
    omega
  · rw [target, finished, producing]
    omega
  · rw [failures, h.failures]
  · rw [unset, h.unset]

/-- What is held and what is still to come are the units asked for. -/
theorem units_held (h : Balanced m l e) :
    totalWeight e.holdings + (e.target - e.finished) = e.parallel := by
  have hlaw := h.law
  have htarget := h.target
  have hroom := h.room
  omega

/-- All that was asked for goes into the final merge. -/
theorem weight_last (h : Balanced m l e) {n : TaskName} {g : MergeGroup}
    (hf : e.finalMerge = some (n, g)) : g.weight = e.parallel := by
  have hover := (h.last (by simp [hf])).2.2.2.2
  have hheld := h.units_held
  rw [h.holdings_last hf] at hheld
  show totalWeight g.inputs = e.parallel
  omega

end Balanced

/-- What a merge is credited with is kept, and the rest of its inputs is lost. -/
theorem units_credited {g : MergeGroup} {old new rest : List PartialResult} {r : PartialResult}
    (hold : old.Perm (g.inputs ++ rest)) (hnew : new.Perm (kept r ++ rest))
    (hr : r.weight ≤ g.weight) :
    totalWeight new + (g.weight - r.weight) = totalWeight old := by
  rw [totalWeight_perm hold, totalWeight_perm hnew, totalWeight_append, totalWeight_append,
    totalWeight_kept]
  unfold MergeGroup.weight at *
  omega

theorem Step.books {e : Execution} {call : Call} {lost missed m l : Nat} {ended : List TaskName}
    {change : Execution × List Action} {next : Option Context}
    (hstep : Step e call lost missed ended change next) (hs : Sound e) (h : Balanced m l e) :
    Books (m + missed) (l + lost) change.1 := by
  cases hstep with
  | ignored => exact h.books
  | started => exact h.books
  | fetched =>
    exact Balanced.books ⟨h.law, h.target, h.room, h.failures, h.unset, h.last⟩
  | @produced c _ _ hp =>
    have hunits := totalWeight_perm (holdings_unreduced e [c.output 1])
    rw [totalWeight_append, Nat.add_comm] at hunits
    exact Balanced.books (h.resolve hp ⟨rfl, rfl, rfl, rfl, rfl⟩ hunits rfl rfl rfl rfl rfl rfl)
  | @merged c _ g _ _ hg =>
    have hold := holdings_merging hg
    have hnew := holdings_reduced { e with merging := e.merging.erase c.task }
      (kept (c.output (creditedWeight g c.weight)))
    have hunits := units_credited hold hnew (creditedWeight_le g c.weight)
    exact Balanced.books (h.credit ⟨rfl, rfl, rfl, rfl, rfl⟩ hunits rfl rfl rfl rfl rfl
      (h.no_last_of_merging hg))
  | completed _ _ _ hf _ =>
    refine ⟨fun hn => (by cases hn), fun r hr => ?_⟩
    cases hr
    exact h.weight_last hf
  | @cutShort c _ g _ _ _ hf hw =>
    have hold := holdings_final hf
    have hnew := holdings_reduced { e with finalMerge := none }
      (kept (c.output (creditedWeight g c.weight)))
    have hunits := units_credited hold hnew (Nat.le_of_lt hw)
    exact Balanced.books (h.credit ⟨rfl, rfl, rfl, rfl, rfl⟩ hunits rfl rfl rfl rfl rfl rfl)
  | missed _ hp =>
    exact Balanced.books (h.resolve hp ⟨rfl, rfl, rfl, rfl, rfl⟩ rfl rfl rfl rfl rfl rfl rfl)
  | @retried _ _ _ g _ _ hg _ =>
    -- a credit in full: the inputs stay held under the fresh name
    have hunits := totalWeight_perm (holdings_again (g.attempts + 1) hg hs.fresh_merging)
    exact Balanced.books (h.credit ⟨rfl, rfl, rfl, rfl, rfl⟩ hunits.symm rfl rfl rfl rfl rfl
      (h.no_last_of_merging hg))
  | abandoned _ _ hg _ =>
    refine Balanced.books (h.credit ⟨rfl, rfl, rfl, rfl, rfl⟩ ?_ rfl rfl rfl rfl rfl
      (h.no_last_of_merging hg))
    have hh := totalWeight_perm (holdings_merging hg)
    rw [totalWeight_append, Nat.add_comm] at hh
    exact hh.symm
  | finalRetried _ _ _ hf _ =>
    have hlaw := h.law
    rw [h.holdings_last hf] at hlaw
    obtain ⟨hp, hm, hu, hr, ht⟩ := h.last (by simp [hf])
    refine Balanced.books ⟨?_, h.target, h.room, h.failures, h.unset,
      fun _ => ⟨hp, hm, hu, hr, ht⟩⟩
    simpa [Execution.holdings, lastInputs, hu, hr, OrderedMap.values, hm] using hlaw
  | finalAbandoned => exact .failed rfl h.unset

/-- One call keeps the books. -/
theorem respond_books {e : Execution} {m l : Nat} (hs : Sound e) (h : Books m l e) (call : Call) :
    Books (m + e.missedBy call) (l + e.lostBy call) (e.respond call).1 := by
  obtain ⟨change, next, hstep, heq⟩ := respond_step e call
  cases ht : e.isTerminal with
  | true =>
    rw [respond_terminal ht, lostBy_terminal ht, missedBy_terminal ht]
    exact h
  | false =>
  have hb := hstep.books hs (h.running ht)
  rw [heq]
  cases next with
  | none => exact hb
  | some ctx =>
    exact (hb.running hstep.running).advance ((hstep.accounts hs).sound hs) ctx

theorem create_balanced (policy : ExecutionPolicy) (name : ExecutionName) (session : SessionName)
    (parallel : Nat) (fetches : Bool) (now : Nat) :
    Balanced 0 0 (create policy name session parallel fetches now) :=
  ⟨rfl, rfl, Nat.zero_le _, rfl, rfl, fun hn => absurd rfl hn⟩

/-- The books are kept in every run. -/
theorem after_books {e : Execution} (hs : Sound e) (h : Balanced 0 0 e) (past : List Call) :
    Books (e.missed past) (e.lost past) (e.after past) := by
  induction past with
  | nil => exact h.books
  | cons call past ih => exact respond_books (after_sound hs past) ih call

/-! ## The final merge -/

/-- If the final merge is outstanding after tasks were issued, it was so before and there are none,
or it is the only one of them. -/
theorem Issues.last_alone {e e' : Execution} {ts : List Task} {n : TaskName} {g : MergeGroup}
    (h : Issues e ts e') (hf : e'.finalMerge = some (n, g)) :
    (e.finalMerge = some (n, g) ∧ ts = []) ∨
    (ts = [e.mergeTask g] ∧ e.merging.entries = []) := by
  induction h with
  | nothing => exact .inl ⟨hf, rfl⟩
  | merge hnone _ _ ih =>
    rcases ih hf with ⟨hs, _⟩ | ⟨_, hm⟩
    · exact absurd (hnone.symm.trans hs) (by simp)
    · exact absurd (OrderedMap.isEmpty_iff.2 hm) (by simp [merging_withMerge_ne])
  | last _ _ _ hm _ _ =>
    cases hf
    exact .inr ⟨rfl, hm⟩
  | produce hnone => exact absurd (hnone.symm.trans hf) (by simp)

/-- A change before the execution moves forward issues no task but an intermediate merge. -/
theorem Step.no_last {e : Execution} {call : Call} {lost missed m l : Nat} {ended : List TaskName}
    {change : Execution × List Action} {ctx : Context}
    (hstep : Step e call lost missed ended change (some ctx)) (h : Balanced m l e) :
    tasksOf change.2 = [] ∨ change.1.finalMerge = none ∧ change.1.merging.entries ≠ [] := by
  cases hstep with
  | produced => exact .inl (tasksOf_adaptTimeout _ _)
  | @retried task _ _ g _ _ hg _ =>
    refine .inr ⟨h.no_last_of_merging hg, fun hnil => ?_⟩
    have hmem : e.freshName ∈
        ((e.merging.erase task).insert e.freshName { g with attempts := g.attempts + 1 }).keys :=
      OrderedMap.mem_keys_iff.2 ⟨_, (OrderedMap.find?_insert _ _ _ _).trans (if_pos rfl)⟩
    simp only [OrderedMap.keys] at hmem
    rw [hnil] at hmem
    cases hmem
  | _ => exact .inl rfl

/-- A change that the execution does not move forward after issues no task but the final merge. -/
theorem Step.last_again {e : Execution} {call : Call} {lost missed : Nat} {ended : List TaskName}
    {change : Execution × List Action} {t : Task} {g : MergeGroup}
    (hstep : Step e call lost missed ended change none) (hmem : t ∈ tasksOf change.2)
    (hf : change.1.finalMerge = some (t.name, g)) :
    t.work = .reduce g.inputs ∧ change.1.isTerminal = false := by
  cases hstep with
  | ignored | completed | finalAbandoned => cases hmem
  | finalRetried ht =>
    obtain ⟨_, rfl⟩ := Prod.mk.inj (Option.some.inj hf)
    rw [List.mem_singleton.1 hmem]
    exact ⟨rfl, ht⟩

/-- A final merge that a call issues is of the inputs that the execution then has for it, and the
execution is not over. -/
theorem respond_last {e : Execution} {m l : Nat} (h : Balanced m l e) {call : Call} {t : Task}
    {g : MergeGroup} (hmem : t ∈ tasksOf (e.respond call).2)
    (hf : (e.respond call).1.finalMerge = some (t.name, g)) :
    t.work = .reduce g.inputs ∧ (e.respond call).1.isTerminal = false := by
  obtain ⟨change, next, hstep, heq⟩ := respond_step e call
  rw [heq] at hmem hf ⊢
  cases next with
  | none => exact hstep.last_again hmem hf
  | some ctx =>
    simp only [proceed, andAdvance, tasksOf_append, List.mem_append] at hmem hf ⊢
    have hno := hstep.no_last h
    rcases advance_cases hstep.running ctx with ⟨reason, ha⟩ | ⟨_, ts, e', ha, hi, _⟩
    · rw [ha] at hmem hf
      rcases hmem with hmem | hmem
      · rcases hno with hno | ⟨hno, _⟩
        · rw [hno] at hmem; cases hmem
        · exact absurd (hno.symm.trans hf) (by simp)
      · cases hmem
    · rw [ha, tasksOf_enqueue] at hmem
      rw [ha] at hf ⊢
      refine ⟨?_, hi.isTerminal hstep.running⟩
      rcases hi.last_alone hf with ⟨hf', hnil⟩ | ⟨rfl, hm⟩
      · rcases hno with hno | ⟨hno, _⟩
        · simp [hno, hnil] at hmem
        · exact absurd (hno.symm.trans hf') (by simp)
      · rcases hno with hno | ⟨_, hno⟩
        · simp only [hno, List.not_mem_nil, List.mem_singleton, false_or] at hmem
          rw [hmem]
          rfl
        · exact absurd hm hno

theorem finish_not_adaptTimeout (e : Execution) (elapsed : Nat) (r : PartialResult) :
    .finish r ∉ (e.adaptTimeout elapsed).2 := by
  unfold adaptTimeout
  split <;> simp

theorem finish_not_advance (e : Execution) (ctx : Context) (r : PartialResult) :
    .finish r ∉ (e.advance ctx).2 := by
  rcases advance_issues e ctx with ⟨reason, ha⟩ | ⟨ts, e', ha, _⟩
  · simp [ha, failWith]
  · simp [ha]

theorem Step.finish {e : Execution} {call : Call} {lost missed : Nat} {ended : List TaskName}
    {change : Execution × List Action} {next : Option Context} {r : PartialResult}
    (hstep : Step e call lost missed ended change next) (hmem : .finish r ∈ change.2) :
    next = none ∧ change.1.result = some r := by
  cases hstep with
  | produced => exact absurd hmem (finish_not_adaptTimeout _ _ _)
  | completed =>
    cases List.mem_singleton.1 hmem
    exact ⟨rfl, rfl⟩
  | _ => simp [failWith] at hmem

/-- An execution that announces its end with a result has that result. -/
theorem respond_finish {e : Execution} {call : Call} {r : PartialResult}
    (hmem : .finish r ∈ (e.respond call).2) : (e.respond call).1.result = some r := by
  obtain ⟨change, next, hstep, heq⟩ := respond_step e call
  rw [heq] at hmem ⊢
  cases next with
  | none => exact (hstep.finish hmem).2
  | some ctx =>
    rcases List.mem_append.1 hmem with hmem | hmem
    · cases (hstep.finish hmem).1
    · exact absurd hmem (finish_not_advance _ _ _)

/-! ## Runs -/

theorem wanted_le (e : Execution) (call : Call) (past : List Call) :
    e.wanted past ≤ e.wanted (call :: past) := by
  simp only [wanted, missed, lost, tally]
  omega

/-- Where the units asked for are, in the state after the calls and in all that the execution has
issued until then. -/
structure Conserved (e : Execution) (past : List Call) : Prop where
  target : (e.after past).isTerminal = false → (e.after past).target = e.wanted past
  units : (e.after past).isTerminal = false →
    totalWeight (e.after past).unreduced
      + ((e.after past).merging.values.map fun g => totalWeight g.inputs).sum
      + totalWeight (e.after past).reduced + totalWeight (e.after past).lastInputs
      + ((e.after past).target - (e.after past).finished) = e.parallel
  room : (e.after past).isTerminal = false →
    (e.after past).finished + (e.after past).producing.length ≤ (e.after past).target
  last : ∀ t ∈ e.lastTasks past,
    ∃ inputs, t.work = .reduce inputs ∧ totalWeight inputs = e.parallel
  finish : ∀ r, .finish r ∈ e.emitted past → r.weight = e.parallel
  result : ∀ r, (e.after past).snapshot.result = some r → r.weight = e.parallel

section Runs

variable {e : Execution} (hs : Sound e) (h : Balanced 0 0 e)

include hs h

theorem conserved_finish {past : List Call} {r : PartialResult}
    (hr : .finish r ∈ e.emitted past) : r.weight = e.parallel := by
  induction past with
  | nil => cases hr
  | cons call past ih =>
    rcases List.mem_append.1 hr with hr | hr
    · exact ih hr
    · have hbooks := after_books hs h (call :: past)
      rw [hbooks.result r (respond_finish hr), (after_terms hs _).parallel]

theorem conserved_last {past : List Call} {t : Task} (hmem : t ∈ e.lastTasks past) :
    ∃ inputs, t.work = .reduce inputs ∧ totalWeight inputs = e.parallel := by
  induction past with
  | nil => cases hmem
  | cons call past ih =>
    rcases List.mem_append.1 hmem with hmem | hmem
    · exact ih hmem
    · obtain ⟨hmem, hf⟩ := List.mem_filter.1 hmem
      obtain ⟨g, hg⟩ := Option.isSome_iff_exists.1 hf
      have hg := finalGroup?_eq_some.1 hg
      cases hover : (e.after past).isTerminal with
      | true => simp [respond_terminal hover, tasksOf] at hmem
      | false =>
        have hb := (after_books hs h past).running hover
        obtain ⟨hwork, hrunning⟩ := respond_last hb hmem hg
        have hweight := ((after_books hs h (call :: past)).running hrunning).weight_last hg
        rw [(after_terms hs (call :: past)).parallel] at hweight
        exact ⟨g.inputs, hwork, hweight⟩

/-- The units asked for are conserved in a run from balanced books. -/
theorem conserved_of_balanced (past : List Call) : Conserved e past := by
  have hp := (after_terms hs past).parallel
  have hbooks := after_books hs h past
  refine ⟨fun hr => ?_, fun hr => ?_, fun hr => (hbooks.running hr).room,
    fun t => conserved_last hs h, fun r => conserved_finish hs h, fun r hr => ?_⟩
  · have htarget : e.target = e.parallel := h.target
    rw [(hbooks.running hr).target, hp, ← htarget]
    rfl
  · have hunits := (hbooks.running hr).units_held
    rw [hp] at hunits
    simpa only [holdings, totalWeight_append, totalWeight_flatMap] using hunits
  · rw [hbooks.result r hr, hp]

end Runs

/-- Whatever is reported, the units asked for are conserved. -/
theorem weight_conserved (policy : ExecutionPolicy) (name : ExecutionName) (session : SessionName)
    (parallel : Nat) (fetches : Bool) (now : Nat) (past : List Call) :
    Conserved (create policy name session parallel fetches now) past :=
  conserved_of_balanced (create_sound policy name session parallel fetches now)
    (create_balanced policy name session parallel fetches now) past

theorem weight_conserved_sample :
    Conserved sample sampleRun ∧ (sample.after sampleRun).result = some ⟨⟨"e-task6"⟩, ⟨"w"⟩, 2⟩ :=
  ⟨weight_conserved _ _ _ _ _ _ _, by decide +kernel⟩

end Execution
end RenderFarm
