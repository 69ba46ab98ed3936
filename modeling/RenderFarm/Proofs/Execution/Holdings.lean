import Mathlib.Algebra.GroupWithZero.Nat
import RenderFarm.Proofs.Execution.Accounts

/-!
# RenderFarm.Proofs.Execution.Holdings

The partial results that an execution holds: waiting for a merge, inputs of a merge that is
outstanding, or merged and waiting for the final merge. What is issued only moves them; the end of
a merge replaces its inputs by what they were merged into.
-/

namespace RenderFarm

@[simp] theorem totalWeight_nil : totalWeight [] = 0 := rfl

theorem totalWeight_eq_sum (rs : List PartialResult) :
    totalWeight rs = (rs.map PartialResult.weight).sum := by
  induction rs with
  | nil => rfl
  | cons r rs ih => rw [totalWeight, ih, List.map_cons, List.sum_cons]

@[simp] theorem totalWeight_append (rs ss : List PartialResult) :
    totalWeight (rs ++ ss) = totalWeight rs + totalWeight ss := by
  simp [totalWeight_eq_sum]

theorem totalWeight_perm {rs ss : List PartialResult} (h : rs.Perm ss) :
    totalWeight rs = totalWeight ss := by
  rw [totalWeight_eq_sum, totalWeight_eq_sum, (h.map _).sum_nat]

theorem totalWeight_flatMap {α : Type} (f : α → List PartialResult) (as : List α) :
    totalWeight (as.flatMap f) = (as.map fun a => totalWeight (f a)).sum := by
  induction as with
  | nil => rfl
  | cons a as ih => simp [ih]

namespace Execution

/-- The inputs of the final merge, while it is outstanding. -/
def lastInputs (e : Execution) : List PartialResult :=
  match e.finalMerge with
  | some (_, g) => g.inputs
  | none => []

/-- The partial results that the execution holds. -/
def holdings (e : Execution) : List PartialResult :=
  e.unreduced ++ e.merging.values.flatMap MergeGroup.inputs ++ e.reduced ++ e.lastInputs

theorem totalWeight_kept (r : PartialResult) : totalWeight (kept r) = r.weight := by
  unfold kept
  split
  · simp [totalWeight]
  · rw [totalWeight_nil]
    omega

/-- The inputs of an intermediate merge are held, apart from all else. -/
theorem holdings_merging {e : Execution} {n : TaskName} {g : MergeGroup}
    (h : e.merging.find? n = some g) :
    e.holdings.Perm (g.inputs ++ { e with merging := e.merging.erase n }.holdings) := by
  have := (OrderedMap.values_perm_erase h).flatMap_right MergeGroup.inputs
  rw [List.perm_iff_count] at *
  intro a
  have := this a
  simp only [holdings, lastInputs, List.flatMap_cons, List.count_append] at *
  omega

theorem holdings_final {e : Execution} {n : TaskName} {g : MergeGroup}
    (h : e.finalMerge = some (n, g)) :
    e.holdings.Perm (g.inputs ++ { e with finalMerge := none }.holdings) := by
  simp only [holdings, lastInputs, h, List.append_nil]
  exact List.perm_append_comm

/-- What is merged goes to the results of intermediate merges. -/
theorem holdings_reduced (e : Execution) (rs : List PartialResult) :
    { e with reduced := e.reduced ++ rs }.holdings.Perm (rs ++ e.holdings) := by
  rw [List.perm_iff_count]
  intro a
  simp only [holdings, lastInputs, List.count_append]
  omega

theorem holdings_unreduced (e : Execution) (rs : List PartialResult) :
    { e with unreduced := e.unreduced ++ rs }.holdings.Perm (rs ++ e.holdings) := by
  rw [List.perm_iff_count]
  intro a
  simp only [holdings, lastInputs, List.count_append]
  omega

/-- A merge that is tried again under a fresh name holds the same inputs. -/
theorem holdings_again {e : Execution} {n m : TaskName} {g : MergeGroup} (attempts : Nat)
    (h : e.merging.find? n = some g) (hm : m ∉ e.merging.keys) :
    e.holdings.Perm
      { e with merging := (e.merging.erase n).insert m { g with attempts } }.holdings := by
  have hm' : m ∉ (e.merging.erase n).keys := fun h' =>
    hm ((OrderedMap.keys_perm_erase h).mem_iff.2 (List.mem_cons_of_mem _ h'))
  refine (holdings_merging h).trans ?_
  rw [List.perm_iff_count]
  intro a
  simp only [holdings, lastInputs, OrderedMap.values_insert_new _ hm', List.flatMap_append,
    List.flatMap_cons, List.flatMap_nil, List.count_append, List.append_nil]
  omega

/-- What an execution issues leaves it with the same partial results. -/
theorem Issues.holdings {e e' : Execution} {ts : List Task} (h : Issues e ts e') (hs : Sound e) :
    e'.holdings.Perm e.holdings := by
  induction h with
  | nothing => exact .refl _
  | @merge e e' ts _ _ _ ih =>
    refine (ih ((withMerge_accounts hs).sound hs)).trans ?_
    rw [List.perm_iff_count]
    intro a
    simp only [Execution.holdings, lastInputs, withMerge,
      OrderedMap.values_insert_new _ hs.fresh_merging, List.flatMap_append, List.flatMap_cons,
      List.flatMap_nil, List.count_append, List.append_nil, List.count_nil]
    omega
  | last hf =>
    simp [Execution.holdings, lastInputs, withLast, hf]
  | produce => exact .refl _

theorem holdings_advance {e : Execution} (hs : Sound e) (ctx : Context) :
    (e.advance ctx).1.holdings.Perm e.holdings := by
  rcases advance_issues e ctx with ⟨reason, ha⟩ | ⟨ts, e', ha, hi⟩
  · rw [ha]
    exact .refl _
  · rw [ha]
    exact hi.holdings hs

end Execution
end RenderFarm
