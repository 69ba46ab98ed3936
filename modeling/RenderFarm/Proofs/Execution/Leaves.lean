import Mathlib.Data.List.Nodup
import RenderFarm.Proofs.Execution.Conservation

/-!
# RenderFarm.Proofs.Execution.Leaves

What a partial result is made of: the producing tasks that it transitively contains. An execution
does not keep this; it follows from the calls of a run.

* `leaves e past n`: the producing tasks in the output of the task `n`.
* `made e past`: the producing tasks whose success was accepted, once for each time.
* `Apart known made rs`: the partial results `rs` have no leaf in common, and none of them stands
  for more units than it has leaves.
-/

namespace RenderFarm

namespace Execution

/-- The leaves of the outputs of tasks after a call, given those before: a finished producing task
is its own leaf, a finished merge has the leaves of all its inputs. -/
def leavesBy (e : Execution) (known : TaskName → List TaskName) : Call → TaskName → List TaskName
  | .finish c _, n =>
    if e.isTerminal || n ≠ c.task then known n
    else if n ∈ e.producing then [n]
    else
      match e.group? n with
      | some g => g.inputs.flatMap fun r => known r.task
      | none => known n
  | _, n => known n

def leaves (e : Execution) : List Call → TaskName → List TaskName
  | [] => fun _ => []
  | call :: past => (e.after past).leavesBy (e.leaves past) call

/-- The producing task whose success a call reports. -/
def madeBy (e : Execution) : Call → List TaskName
  | .finish c _ => if !e.isTerminal && c.task ∈ e.producing then [c.task] else []
  | _ => []

def made (e : Execution) : List Call → List TaskName
  | [] => []
  | call :: past => e.made past ++ (e.after past).madeBy call

/-! ## Partial results apart -/

structure Apart (known : TaskName → List TaskName) (made : List TaskName)
    (rs : List PartialResult) : Prop where
  nodup : (rs.flatMap fun r => known r.task).Nodup
  made : ∀ r ∈ rs, ∀ n ∈ known r.task, n ∈ made
  weight : ∀ r ∈ rs, 1 ≤ r.weight ∧ r.weight ≤ (known r.task).length

namespace Apart

variable {known known' : TaskName → List TaskName} {done done' : List TaskName}
  {rs ss : List PartialResult} {r : PartialResult}

theorem nil : Apart known done [] :=
  ⟨List.nodup_nil, by simp, by simp⟩

theorem perm (h : Apart known done rs) (hp : rs.Perm ss) : Apart known done ss :=
  ⟨(hp.flatMap_right _).nodup_iff.1 h.nodup, fun r hr => h.made r (hp.mem_iff.2 hr),
    fun r hr => h.weight r (hp.mem_iff.2 hr)⟩

theorem right (h : Apart known done (rs ++ ss)) : Apart known done ss := by
  have hn := h.nodup
  rw [List.flatMap_append] at hn
  exact ⟨(List.nodup_append.1 hn).2.1, fun r hr => h.made r (List.mem_append_right _ hr),
    fun r hr => h.weight r (List.mem_append_right _ hr)⟩

theorem congr (h : Apart known done rs) (hk : ∀ r ∈ rs, known' r.task = known r.task)
    (hm : ∀ n ∈ done, n ∈ done') : Apart known' done' rs := by
  have hflat : (rs.flatMap fun r => known' r.task) = rs.flatMap fun r => known r.task :=
    List.flatMap_congr hk
  refine ⟨hflat ▸ h.nodup, fun r hr n hn => ?_, fun r hr => ?_⟩
  · rw [hk r hr] at hn
    exact hm n (h.made r hr n hn)
  · rw [hk r hr]
    exact h.weight r hr

/-- Together, partial results stand for no more units than they have leaves. -/
theorem units_le (h : Apart known done rs) :
    totalWeight rs ≤ (rs.flatMap fun r => known r.task).length := by
  induction rs with
  | nil => exact Nat.le_refl _
  | cons r rs ih =>
    have hrs : Apart known done rs := right (List.singleton_append ▸ h)
    have hr := (h.weight r List.mem_cons_self).2
    have := ih hrs
    have hunits : totalWeight (r :: rs) = r.weight + totalWeight rs := rfl
    simp only [List.flatMap_cons, List.length_append]
    omega

/-- The output of a producing task whose success is new. -/
theorem leaf (h : Apart known done rs) (hk : ∀ r' ∈ rs, known' r'.task = known r'.task)
    (hr : known' r.task = [r.task]) (hw : r.weight = 1) (hnew : r.task ∉ done) :
    Apart known' (done ++ [r.task]) ([r] ++ rs) := by
  have hsame : Apart known' done rs := h.congr hk fun _ hn => hn
  refine ⟨?_, ?_, ?_⟩
  · simp only [List.singleton_append, List.flatMap_cons, hr]
    refine List.nodup_cons.2 ⟨fun hmem => ?_, hsame.nodup⟩
    obtain ⟨r', hr', hn⟩ := List.mem_flatMap.1 hmem
    exact hnew (hsame.made r' hr' _ hn)
  · intro r' hr' n hn
    rcases List.mem_cons.1 hr' with rfl | hr'
    · rw [hr] at hn
      exact List.mem_append_right _ hn
    · exact List.mem_append_left _ (hsame.made r' hr' n hn)
  · intro r' hr'
    rcases List.mem_cons.1 hr' with rfl | hr'
    · simp [hr, hw]
    · exact hsame.weight r' hr'

/-- The output of a merge takes the place of its inputs. -/
theorem merge (h : Apart known done (rs ++ ss)) (hk : ∀ r' ∈ ss, known' r'.task = known r'.task)
    (hr : known' r.task = rs.flatMap fun r => known r.task) (hpos : 0 < r.weight)
    (hw : r.weight ≤ totalWeight rs) : Apart known' done ([r] ++ ss) := by
  have hsame : Apart known' done ss := h.right.congr hk fun _ hn => hn
  have hflat : (ss.flatMap fun r => known' r.task) = ss.flatMap fun r => known r.task :=
    List.flatMap_congr hk
  have hleft : Apart known done rs := right (h.perm List.perm_append_comm)
  refine ⟨?_, ?_, ?_⟩
  · have hn := h.nodup
    rw [List.flatMap_append] at hn
    simpa only [List.singleton_append, List.flatMap_cons, hr, hflat] using hn
  · intro r' hr' n hn
    rcases List.mem_cons.1 hr' with rfl | hr'
    · rw [hr] at hn
      obtain ⟨r'', hr'', hn⟩ := List.mem_flatMap.1 hn
      exact h.made r'' (List.mem_append_left _ hr'') n hn
    · exact hsame.made r' hr' n hn
  · intro r' hr'
    rcases List.mem_cons.1 hr' with rfl | hr'
    · rw [hr]
      exact ⟨hpos, Nat.le_trans hw hleft.units_le⟩
    · exact hsame.weight r' hr'

theorem units_pos (h : Apart known done rs) (hne : rs ≠ []) : 0 < totalWeight rs := by
  obtain ⟨r, rs, rfl⟩ := List.exists_cons_of_ne_nil hne
  have hr := (h.weight r List.mem_cons_self).1
  have hunits : totalWeight (r :: rs) = r.weight + totalWeight rs := rfl
  omega

end Apart

end Execution
end RenderFarm
