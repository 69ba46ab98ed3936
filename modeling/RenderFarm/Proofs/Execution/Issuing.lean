import RenderFarm.Proofs.Execution.Calls

/-!
# RenderFarm.Proofs.Execution.Issuing

What an execution issues when it moves forward.

* `Issues e ts e'`: from `e` the tasks `ts` are issued, in order, and `e'` is left. Every
  constructor is one thing that can be issued, under the condition that it is issued under.
* `Hopeless e reason`: why an execution that moves forward gives up.
* `advance_outcome`, `advance_cases`, `advance_issues`: moving forward is a failure, for such a
  reason, or nothing but `Issues`.
-/

namespace RenderFarm
namespace Execution

/-- The waiting results become an intermediate merge. -/
def withMerge (e : Execution) : Execution :=
  { e with
    unreduced := []
    merging := e.merging.insert e.freshName { inputs := e.unreduced }
    nextTask := e.nextTask + 1
    overflowed := e.overflows [e.nextTask + 1] }

/-- The results of the intermediate merges become the final merge. -/
def withLast (e : Execution) : Execution :=
  { e with
    phase := .finalReducing
    reduced := []
    finalMerge := some (e.freshName, { inputs := e.reduced })
    nextTask := e.nextTask + 1
    overflowed := e.overflows [e.nextTask + 1] }

inductive Issues : Execution → List Task → Execution → Prop where
  | nothing {e : Execution} : Issues e [] e
  | merge {e e' : Execution} {ts : List Task} : e.finalMerge = none → e.unreduced ≠ [] →
      Issues e.withMerge ts e' → Issues e (e.mergeTask { inputs := e.unreduced } :: ts) e'
  | last {e : Execution} : e.finalMerge = none → e.target ≤ e.finished → e.producing = [] →
      e.merging.entries = [] → e.unreduced = [] → e.reduced ≠ [] →
      Issues e [e.mergeTask { inputs := e.reduced }] e.withLast
  | produce {e : Execution} {n : Nat} : e.finalMerge = none →
      n ≤ e.target - e.finished - e.producing.length →
      Issues e ((List.range n).map e.producingTask) (e.startProducing n).1

/-- Too many producing tasks have failed, or there is nothing to merge and nothing to come. -/
inductive Hopeless (e : Execution) : String → Prop where
  | exhausted : e.failureLimit < e.failures →
      Hopeless e (e.lastFailure.getD "too many producing tasks failed")
  | barren : e.finalMerge = none → e.target ≤ e.finished → e.merging.entries = [] →
      e.unreduced = [] → e.reduced = [] → Hopeless e "no producing result to reduce"

theorem groupSize_pos (e : Execution) : 0 < e.groupSize :=
  Nat.lt_of_lt_of_le Nat.one_pos (Nat.le_max_left _ _)

theorem producingDone_iff {e : Execution} :
    e.producingDone = true ↔ e.target ≤ e.finished ∧ e.producing = [] := by
  simp [producingDone, List.isEmpty_iff]

/-- Waiting results are merged exactly if they fill a group or no more of them will come. -/
theorem mergeWaiting_cases (e : Execution) :
    (e.mergeWaiting = (e, []) ∧ (e.producingDone = true → e.unreduced = [])) ∨
    (e.mergeWaiting = (e.withMerge, [.enqueue (e.mergeTask { inputs := e.unreduced })]) ∧
      e.unreduced ≠ [] ∧ (e.unreduced.length < e.groupSize → e.producingDone = true)) := by
  unfold mergeWaiting
  split
  · rename_i h
    simp only [Bool.or_eq_true, decide_eq_true_eq, Bool.and_eq_true] at h
    refine .inr ⟨rfl, fun hu => ?_, fun hlt => ?_⟩
    · have := e.groupSize_pos
      simp [hu] at h
      omega
    · exact (h.resolve_left (Nat.not_le.2 hlt)).1
  · rename_i h
    simp only [Bool.or_eq_true, decide_eq_true_eq, Bool.and_eq_true, not_or, not_and] at h
    exact .inl ⟨rfl, fun hd => by simpa using h.2 hd⟩

theorem merging_withMerge_ne (e : Execution) : e.withMerge.merging.isEmpty = false := by
  cases h : e.withMerge.merging.isEmpty with
  | false => rfl
  | true =>
    have hk : e.freshName ∈ e.withMerge.merging.keys :=
      OrderedMap.mem_keys_iff.2 ⟨_, (OrderedMap.find?_insert _ _ _ _).trans (if_pos rfl)⟩
    simp [OrderedMap.keys, OrderedMap.isEmpty_iff.1 h] at hk

theorem missing_le (e : Execution) (ctx : Context) :
    e.missing ctx ≤ e.target - e.finished - e.producing.length := by
  simp only [missing]
  split
  · split
    · exact Nat.min_le_left _ _
    · exact Nat.zero_le _
  · exact Nat.le_refl _

theorem missing_pos {e : Execution} (hp : e.producing = []) (hd : e.producingDone = false)
    (ctx : Context) : 0 < e.missing ctx := by
  have ht : e.finished < e.target := by simpa [producingDone, hp] using hd
  simp only [missing, hp, List.length_nil, List.isEmpty_nil, if_true]
  split <;> omega

theorem outstanding_eq_nil {e : Execution} (h : e.outstanding = []) :
    e.producing = [] ∧ e.merging.isEmpty = true ∧ e.finalMerge = none := by
  simpa [outstanding, OrderedMap.keys, OrderedMap.isEmpty, and_assoc] using h

/-- The throttle never holds back the only task that an execution can wait for. -/
theorem outstanding_startProducing {e : Execution}
    (hd : ¬ (e.producingDone && e.merging.isEmpty) = true) (ctx : Context) :
    (e.startProducing (e.missing ctx)).1.outstanding ≠ [] := by
  intro h
  obtain ⟨hp, hm, _⟩ := outstanding_eq_nil h
  simp only [startProducing, List.append_eq_nil_iff, List.map_eq_nil_iff,
    List.range_eq_nil] at hp
  have hm : e.merging.isEmpty = true := hm
  have := missing_pos hp.1 (by simpa [hm] using hd) ctx
  omega

/-- Moving forward is a failure, or issues some tasks and does nothing else; then some task is
outstanding. -/
theorem advance_outcome {e : Execution} (ht : e.isTerminal = false) (ctx : Context) :
    (∃ reason, Hopeless e reason ∧ e.advance ctx = e.failWith reason ctx.now) ∨
    (e.failures ≤ e.failureLimit ∧ ∃ ts e', e.advance ctx = (e', ts.map .enqueue) ∧
      Issues e ts e' ∧ e'.outstanding ≠ []) := by
  simp only [advance, ht, Bool.false_eq_true, if_false]
  split
  · rename_i hl
    exact .inl ⟨_, .exhausted hl, rfl⟩
  rename_i hl
  have hl' : e.failures ≤ e.failureLimit := Nat.le_of_not_lt hl
  split
  · rename_i hf
    refine .inr ⟨hl', [], e, rfl, .nothing, fun h => ?_⟩
    simp [(outstanding_eq_nil h).2.2] at hf
  rename_i hf
  have hf' : e.finalMerge = none := by simpa using hf
  rcases mergeWaiting_cases e with ⟨hw, hu⟩ | ⟨hw, hu, _⟩
  · simp only [hw, List.nil_append]
    split
    · rename_i hd
      obtain ⟨hd, hm⟩ := Bool.and_eq_true_iff.1 hd
      have hp := producingDone_iff.1 hd
      split
      · rename_i hr
        exact .inl ⟨_, .barren hf' hp.1 (OrderedMap.isEmpty_iff.1 hm) (hu hd) (by simpa using hr),
          rfl⟩
      · rename_i hr
        exact .inr ⟨hl', _, _, rfl, .last hf' hp.1 hp.2 (OrderedMap.isEmpty_iff.1 hm) (hu hd)
          (by simpa using hr), by simp [outstanding, withLast]⟩
    · rename_i hd
      exact .inr ⟨hl', _, _, by rw [startProducing], .produce hf' (missing_le e ctx),
        outstanding_startProducing hd ctx⟩
  · have hd : ¬ (e.withMerge.producingDone && e.withMerge.merging.isEmpty) = true := by
      simp [merging_withMerge_ne]
    simp only [hw, merging_withMerge_ne, Bool.and_false, Bool.false_eq_true, if_false]
    refine .inr ⟨hl', _, _, ?_, .merge hf' hu (.produce hf' (missing_le e.withMerge ctx)),
      outstanding_startProducing hd ctx⟩
    simp only [List.map_cons, startProducing, List.singleton_append]

theorem advance_cases {e : Execution} (ht : e.isTerminal = false) (ctx : Context) :
    (∃ reason, e.advance ctx = e.failWith reason ctx.now) ∨
    (e.failures ≤ e.failureLimit ∧ ∃ ts e', e.advance ctx = (e', ts.map .enqueue) ∧
      Issues e ts e' ∧ e'.outstanding ≠ []) :=
  (advance_outcome ht ctx).imp_left fun ⟨reason, _, ha⟩ => ⟨reason, ha⟩

/-- The same of any execution: one that is over issues nothing. -/
theorem advance_issues (e : Execution) (ctx : Context) :
    (∃ reason, e.advance ctx = e.failWith reason ctx.now) ∨
    ∃ ts e', e.advance ctx = (e', ts.map .enqueue) ∧ Issues e ts e' := by
  cases ht : e.isTerminal with
  | true => exact .inr ⟨[], e, by simp [advance, ht], .nothing⟩
  | false =>
    rcases advance_cases ht ctx with hfail | ⟨_, ts, e', ha, hi, _⟩
    · exact .inl hfail
    · exact .inr ⟨ts, e', ha, hi⟩

theorem Issues.isTerminal {e e' : Execution} {ts : List Task} (h : Issues e ts e')
    (ht : e.isTerminal = false) : e'.isTerminal = false := by
  induction h with
  | nothing => exact ht
  | merge _ _ _ ih => exact ih ht
  | last => rfl
  | produce => exact ht

end Execution
end RenderFarm
