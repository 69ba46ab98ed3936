import RenderFarm.Proofs.Execution.Accounts

/-!
# RenderFarm.Proofs.Execution.Seeds

The producing tasks of an execution and their seeds.

* `Sows e ts e'`: the producing tasks among `ts` have the next seeds, in order, and a task that is
  producing afterwards was so before or is one of them.
* `after_sows`: this holds of every run, so no seed is used twice.
-/

namespace RenderFarm

/-- The seed of a producing task. -/
def Task.seed? (t : Task) : Option Nat :=
  match t.work with
  | .produce seed _ => some seed
  | .reduce _ => none

namespace Execution

/-- The seeds of the producing tasks among the tasks, in order. -/
def seedsOf (ts : List Task) : List Nat := ts.filterMap Task.seed?

@[simp] theorem seedsOf_append (ts us : List Task) :
    seedsOf (ts ++ us) = seedsOf ts ++ seedsOf us :=
  List.filterMap_append

structure Sows (e : Execution) (ts : List Task) (e' : Execution) : Prop where
  seeds : seedsOf ts = List.range' e.nextSeed (seedsOf ts).length
  next : e'.nextSeed = e.nextSeed + (seedsOf ts).length
  producing : ∀ n ∈ e'.producing, n ∈ e.producing ∨ ∃ t ∈ ts, t.name = n ∧ t.kind = .producing

namespace Sows

variable {e e' : Execution} {ts : List Task}

theorem refl (e : Execution) : Sows e [] e :=
  ⟨rfl, rfl, fun _ hn => .inl hn⟩

theorem trans {e'' : Execution} {us : List Task} (h : Sows e ts e') (h' : Sows e' us e'') :
    Sows e (ts ++ us) e'' where
  seeds := by
    rw [seedsOf_append, List.length_append, ← List.range'_append_1, ← h.seeds, ← h.next,
      ← h'.seeds]
  next := by rw [h'.next, h.next, seedsOf_append, List.length_append, Nat.add_assoc]
  producing := by
    intro n hn
    rcases h'.producing n hn with hn | ⟨t, ht, hname⟩
    · rcases h.producing n hn with hn | ⟨t, ht, hname⟩
      · exact .inl hn
      · exact .inr ⟨t, List.mem_append_left _ ht, hname⟩
    · exact .inr ⟨t, List.mem_append_right _ ht, hname⟩

/-- Nothing is sown. -/
theorem fallow (hseeds : seedsOf ts = []) (hnext : e'.nextSeed = e.nextSeed)
    (hp : ∀ n ∈ e'.producing, n ∈ e.producing) : Sows e ts e' :=
  ⟨by rw [hseeds]; rfl, by rw [hseeds]; exact hnext, fun n hn => .inl (hp n hn)⟩

end Sows

theorem seedsOf_producing (e : Execution) (n : Nat) :
    seedsOf ((List.range n).map e.producingTask) = List.range' e.nextSeed n := by
  simp [seedsOf, List.filterMap_map, Function.comp_def, Task.seed?, producingTask,
    List.range'_eq_map_range]

theorem Issues.sows {e e' : Execution} {ts : List Task} (h : Issues e ts e') : Sows e ts e' := by
  induction h with
  | nothing => exact .refl _
  | @merge e _ _ _ _ _ ih =>
    have h : Sows e [e.mergeTask { inputs := e.unreduced }] e.withMerge :=
      .fallow rfl rfl fun _ hn => hn
    exact h.trans ih
  | last => exact .fallow rfl rfl fun _ hn => hn
  | @produce e n _ _ =>
    refine ⟨?_, ?_, ?_⟩
    · simp [seedsOf_producing]
    · simp [seedsOf_producing, startProducing]
    · intro m hm
      rcases List.mem_append.1 hm with hm | hm
      · exact .inl hm
      · obtain ⟨t, ht, rfl⟩ := List.mem_map.1 hm
        obtain ⟨i, _, rfl⟩ := List.mem_map.1 ht
        exact .inr ⟨_, ht, rfl, rfl⟩

theorem Step.sows {e : Execution} {call : Call} {lost missed : Nat} {ended : List TaskName}
    {change : Execution × List Action} {next : Option Context}
    (hstep : Step e call lost missed ended change next) :
    Sows e (tasksOf change.2) change.1 := by
  cases hstep with
  | ignored | started => exact .refl e
  | produced =>
    rw [tasksOf_adaptTimeout]
    exact .fallow rfl rfl fun _ hn => List.mem_of_mem_erase hn
  | missed => exact .fallow rfl rfl fun _ hn => List.mem_of_mem_erase hn
  | _ => exact .fallow rfl rfl fun _ hn => hn

theorem advance_sows (e : Execution) (ctx : Context) :
    Sows e (tasksOf (e.advance ctx).2) (e.advance ctx).1 := by
  rcases advance_issues e ctx with ⟨reason, ha⟩ | ⟨ts, e', ha, hi⟩
  · rw [ha]
    exact .fallow rfl rfl fun _ hn => hn
  · rw [ha, tasksOf_enqueue]
    exact hi.sows

theorem respond_sows (e : Execution) (call : Call) :
    Sows e (tasksOf (e.respond call).2) (e.respond call).1 := by
  obtain ⟨change, next, hstep, heq⟩ := respond_step e call
  rw [heq]
  cases next with
  | none => exact hstep.sows
  | some ctx =>
    have := hstep.sows.trans (advance_sows change.1 ctx)
    simpa [proceed, andAdvance] using this

theorem after_sows (e : Execution) (past : List Call) : Sows e (e.issued past) (e.after past) := by
  induction past with
  | nil => exact .refl e
  | cons call past ih =>
    simp only [issued, emitted, tasksOf_append]
    exact ih.trans (respond_sows _ call)

end Execution
end RenderFarm
