import RenderFarm.Proofs.Schedule.Lines

/-!
# RenderFarm.Proofs.Schedule.Shares

The executions share one queue and one set of workers. What a single one of them has there is left
alone by all that is done for the others.

* `lineOf s y`: the waiting tasks of the execution `y`, in their order.
* `Spares y s s'`: the execution `y` has the same tasks waiting and the same on workers, as they
  were. One lemma for each operation that is done for another execution says so.
* `Serves y s s' as`: the front of the line goes to workers with the assignments `as`.
-/

namespace RenderFarm
namespace Schedule

variable {s s' : Schedule} {x y : ExecutionName} {t : Task} {n : TaskName} {a : Assignment}

/-- The waiting tasks of the execution, in the order of the queue. -/
def lineOf (s : Schedule) (y : ExecutionName) : List Task :=
  s.pending.filter fun t => t.execution = y

structure Spares (y : ExecutionName) (s s' : Schedule) : Prop where
  line : s'.lineOf y = s.lineOf y
  flights : ∀ n a, a.task.execution = y →
    (s'.inFlight.find? n = some a ↔ s.inFlight.find? n = some a)

theorem Spares.refl (y : ExecutionName) (s : Schedule) : Spares y s s :=
  ⟨rfl, fun _ _ _ => .rfl⟩

theorem Spares.trans {s₁ s₂ s₃ : Schedule} (h : Spares y s₁ s₂) (h' : Spares y s₂ s₃) :
    Spares y s₁ s₃ :=
  ⟨h'.line.trans h.line, fun n a ha => (h'.flights n a ha).trans (h.flights n a ha)⟩

/-! ## The queue -/

theorem filter_insertBeforeProducing {p : Task → Bool} (ht : p t = false) (ts : List Task) :
    (insertBeforeProducing t ts).filter p = ts.filter p := by
  induction ts with
  | nil => simp [insertBeforeProducing, ht]
  | cons u us ih =>
    simp only [insertBeforeProducing]
    split
    · rw [List.filter_cons_of_neg (by simp [ht])]
    · rw [List.filter_cons, List.filter_cons, ih]

theorem spares_enqueue (s : Schedule) (ht : t.execution ≠ y) : Spares y s (s.enqueue t) := by
  unfold enqueue
  split
  · exact ⟨filter_insertBeforeProducing (by simp [ht]) s.pending, fun _ _ _ => .rfl⟩
  · exact ⟨by simp [lineOf, ht], fun _ _ _ => .rfl⟩

theorem spares_dropExecution (s : Schedule) (hne : x ≠ y) :
    Spares y s (s.dropExecution x).1 := by
  refine ⟨?_, fun _ _ _ => .rfl⟩
  simp only [lineOf, dropExecution, List.filter_filter]
  refine List.filter_congr fun t _ => ?_
  by_cases hy : t.execution = y
  · simp [hy, hne.symm]
  · simp [hy]

/-! ## Timeouts -/

theorem retimed_of_ne (ht : t.execution ≠ x) (timeout : Nat) : retimed x timeout t = t :=
  if_neg fun h => ht h.1

theorem spares_retime (s : Schedule) (hne : x ≠ y) (timeout now : Nat) :
    Spares y s (s.retime x timeout now).1 := by
  have hexecution : ∀ t, (retimed x timeout t).execution = t.execution := fun t =>
    congrArg Prod.fst (tag_retimed x timeout t)
  have hsame : ∀ {t : Task}, t.execution = y → retimed x timeout t = t := fun ht =>
    retimed_of_ne (fun hx => hne (hx.symm.trans ht)) timeout
  refine ⟨?_, fun n a ha => ?_⟩
  · simp only [lineOf, retime, List.filter_map, Function.comp_def, hexecution]
    refine (List.map_congr_left fun t ht => ?_).trans (List.map_id _)
    exact hsame (by simpa using (List.mem_filter.1 ht).2)
  · simp only [retime, OrderedMap.find?_mapValues, Option.map_eq_some_iff]
    constructor
    · rintro ⟨b, hb, rfl⟩
      rw [hsame ((hexecution b.task).symm.trans ha)]
      exact hb
    · intro hb
      exact ⟨a, hb, by rw [hsame ha]⟩

/-! ## The end of an assignment -/

theorem spares_erase (hb : s.inFlight.find? n = some a) (hne : a.task.execution ≠ y)
    (hp : s'.pending = s.pending) (hin : s'.inFlight = s.inFlight.erase n) : Spares y s s' := by
  refine ⟨by simp only [lineOf, hp], fun n' b hy => ?_⟩
  rw [hin, OrderedMap.find?_erase]
  split
  · rename_i hn
    subst hn
    constructor
    · intro hnone
      cases hnone
    · intro hb'
      cases hb.symm.trans hb'
      exact absurd hy hne
  · exact .rfl

/-! ## Dispatch passes -/

/-- From the front of the line of `y`, tasks go to workers with the assignments `as`; the others
keep waiting, and whatever was on a worker stays there. -/
structure Serves (y : ExecutionName) (s s' : Schedule) (as : List Assignment) : Prop where
  line : ∃ dealt, s.lineOf y = dealt ++ s'.lineOf y ∧ ∀ t ∈ dealt, ∃ a ∈ as,
    a.task.gist = t.gist ∧ a.task.timeout = t.timeout ∧ s'.inFlight.find? t.name = some a
  flights : ∀ n a, s.inFlight.find? n = some a → s'.inFlight.find? n = some a

theorem Serves.refl (y : ExecutionName) (s : Schedule) : Serves y s s [] :=
  ⟨⟨[], rfl, nofun⟩, fun _ _ ha => ha⟩

/-- A pass that does not run out of tickets serves every execution, if no name is scheduled twice. -/
theorem serves_dispatch (y : ExecutionName) (hk : s.Keyed)
    (hn : ((s.waiting ++ s.running).map Prod.snd).Nodup)
    (hroom : s.nextTicket + min s.pending.length s.idle.length ≤ Word.top) (f : Fleet) (now : Nat) :
    Serves y s (s.dispatch f now).schedule ((s.dispatch f now).assignments.getD []) := by
  obtain ⟨as, hd⟩ := dealt_dispatch s f now
  obtain ⟨as', hserved⟩ := served_dispatch s f now
  have hmade := (hd.all hroom).1
  obtain ⟨rfl, hpending⟩ : as' = as ∧ (s.dispatch f now).schedule.pending =
      s.pending.drop as'.length := by
    rcases hserved.rest with ⟨hmade', _, hpending, _⟩ | ⟨hnone, _⟩
    · exact ⟨Option.some.inj (hmade'.symm.trans hmade), hpending⟩
    · rw [hnone] at hmade
      cases hmade
  have hentries := hd.entries hk hn
  have hold : ∀ n a, s.inFlight.find? n = some a →
      (s.dispatch f now).schedule.inFlight.find? n = some a := by
    intro n a ha
    rw [← OrderedMap.mem_entries_iff, hentries]
    exact List.mem_append_left _ (OrderedMap.mem_entries_iff.2 ha)
  refine ⟨⟨(s.pending.take as'.length).filter fun t => t.execution = y, ?_, fun t ht => ?_⟩, hold⟩
  · rw [lineOf, lineOf, hpending, ← List.filter_append, List.take_append_drop]
  · have hgist : (t.gist, t.timeout) ∈ as'.map fun a => (a.task.gist, a.task.timeout) := by
      rw [hserved.tasks]
      exact List.mem_map_of_mem (List.mem_filter.1 ht).1 (f := fun t => (t.gist, t.timeout))
    obtain ⟨a, ha, heq⟩ := List.mem_map.1 hgist
    obtain ⟨hgist, htimeout⟩ := Prod.mk.inj heq
    have hname : a.task.name = t.name := congrArg (fun u => u.tag.2) hgist
    refine ⟨a, by rwa [hmade], hgist, htimeout, ?_⟩
    rw [← hname, ← OrderedMap.mem_entries_iff, hentries]
    exact List.mem_append_right _ (List.mem_map_of_mem ha (f := fun a => (a.task.name, a)))

end Schedule
end RenderFarm
