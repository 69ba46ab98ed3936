import RenderFarm.Proofs.Schedule.Crew

/-!
# RenderFarm.Proofs.Schedule.Tasks

The tasks of a schedule as they are, with their timeouts and their sources.

* `tasks s`: all of them.
* `Drawn ts f a`: the assignment is of one of the tasks `ts`, whose source is now a live worker if
  it has changed.
* `draws_dispatch`: of a dispatch pass nothing comes but this.
-/

namespace RenderFarm

/-- It is still open which worker the resources come from, if any. -/
def Task.Unplaced (t : Task) : Prop := ∀ seed w, t.work ≠ .produce seed (.cached w)

namespace Schedule

def tasks (s : Schedule) : List Task := s.pending ++ s.inFlight.values.map Assignment.task

variable {s : Schedule} {f : Fleet} {t u : Task} {ts : List Task} {x : ExecutionName}
  {a : Assignment} {now : Nat}

theorem mem_tasks : t ∈ s.tasks ↔
    t ∈ s.pending ∨ ∃ n a, s.inFlight.find? n = some a ∧ a.task = t := by
  simp only [tasks, List.mem_append, List.mem_map, OrderedMap.mem_values_iff]
  refine or_congr_right ⟨?_, ?_⟩
  · rintro ⟨a, ⟨n, ha⟩, rfl⟩
    exact ⟨n, a, ha, rfl⟩
  · rintro ⟨n, a, ha, rfl⟩
    exact ⟨a, ⟨n, ha⟩, rfl⟩

theorem tags_tasks (s : Schedule) : s.tasks.map Task.tag = s.waiting ++ s.running := by
  simp [tasks, waiting, running, Function.comp_def]

theorem mem_pending_enqueue : u ∈ (s.enqueue t).pending ↔ u ∈ s.pending ∨ u = t := by
  unfold enqueue
  split
  · rw [(insertBeforeProducing_perm t s.pending).mem_iff, List.mem_append, List.mem_singleton]
  · rw [List.mem_append, List.mem_singleton]

theorem mem_pending_dropExecution :
    t ∈ (s.dropExecution x).1.pending ↔ t ∈ s.pending ∧ t.execution ≠ x := by
  simp [dropExecution]

/-! ## Dispatch passes -/

theorem takeCached_alive {session : SessionName} {w : WorkerName} {f' : Fleet}
    (h : f.takeCached session = (some w, f')) : f.isAlive w = true := by
  unfold Fleet.takeCached at h
  split at h
  · cases h
  · split at h
    · cases h
    · rename_i hlive
      cases h
      exact List.find?_some hlive

/-- Affinity settles a source that is open, and nothing else. -/
theorem withAffinity_eq (t : Task) (f : Fleet) :
    ∃ work, (withAffinity t f).1 = { t with work } ∧ work.kind = t.kind ∧
      ∀ seed w, work = .produce seed (.cached w) → t.work = work ∨ f.isAlive w = true := by
  unfold withAffinity
  split
  · rename_i seed hwork
    split
    · rename_i w f' htake
      refine ⟨.produce seed (.cached w), rfl, ?_, ?_⟩
      · rw [Task.kind, hwork]
        rfl
      · intro _ v heq
        cases heq
        exact .inr (takeCached_alive htake)
    · exact ⟨t.work, rfl, rfl, fun _ _ _ => .inl rfl⟩
  · exact ⟨t.work, rfl, rfl, fun _ _ _ => .inl rfl⟩

/-- Only the source of the task may have changed, and then it is a live worker. -/
def Drawn (ts : List Task) (f : Fleet) (a : Assignment) : Prop :=
  ∃ t ∈ ts, ∃ work, a.task = { t with work } ∧ work.kind = t.kind ∧
    ∀ seed w, work = .produce seed (.cached w) → t.work = work ∨ f.isAlive w = true

structure Draws (ts : List Task) (s : Schedule) (f : Fleet) (p : Pass) : Prop where
  pending : ∀ t ∈ p.schedule.pending, t ∈ ts
  inFlight : ∀ n a, p.schedule.inFlight.find? n = some a →
    s.inFlight.find? n = some a ∨ Drawn ts f a
  made : ∀ a ∈ p.assignments.getD [], Drawn ts f a ∧ a.worker ∈ s.idle

theorem Drawn.later {f' : Fleet} (h : Drawn ts f' a) (hf : f'.members = f.members) :
    Drawn (t :: ts) f a := by
  obtain ⟨u, hu, work, htask, hkind, hsource⟩ := h
  refine ⟨u, List.mem_cons_of_mem _ hu, work, htask, hkind, ?_⟩
  intro seed w heq
  rw [← Fleet.isAlive_congr hf]
  exact hsource seed w heq

theorem mem_map_getD {b : Assignment} {as : Option (List Assignment)}
    (h : a ∈ (as.map (b :: ·)).getD []) : a = b ∨ a ∈ as.getD [] := by
  cases as with
  | none => cases h
  | some as => exact List.mem_cons.1 h

theorem draws_dispatchAll (now : Nat) (ts : List Task) (s : Schedule) (f : Fleet) :
    Draws ts s f (dispatchAll now ts s f) := by
  induction ts generalizing s f with
  | nil => exact ⟨fun t ht => ht, fun n a ha => .inl ha, by simp [dispatchAll]⟩
  | cons t ts ih =>
    cases hidle : s.idle with
    | nil =>
      simp only [dispatchAll, hidle]
      exact ⟨fun t ht => ht, fun n a ha => .inl ha, by simp⟩
    | cons w ws =>
      have hmembers := members_withAffinity t f
      have hnew : Drawn (t :: ts) f ⟨(withAffinity t f).1, w, s.nextTicket, now⟩ :=
        ⟨t, List.mem_cons_self, withAffinity_eq t f⟩
      simp only [dispatchAll, hidle]
      rcases next?_cases s with ⟨hnone, _⟩ | hsome
      · rw [hnone]
        exact ⟨fun t ht => List.mem_cons_of_mem _ ht, fun n a ha => .inl ha, by simp⟩
      · rw [hsome]
        have h := ih ({ s with idle := ws, tickets := ⟨s.nextTicket + 1⟩ }.assign
          (withAffinity t f).1 w s.nextTicket now).1 (withAffinity t f).2
        refine ⟨?_, ?_, ?_⟩
        · intro u hu
          exact List.mem_cons_of_mem _ (h.pending u hu)
        · intro n a ha
          rcases h.inFlight n a ha with hold | hdrawn
          · simp only [assign, OrderedMap.find?_insert] at hold
            split at hold
            · cases hold
              exact .inr hnew
            · exact .inl hold
          · exact .inr (hdrawn.later hmembers)
        · intro a ha
          rcases mem_map_getD ha with rfl | ha
          · exact ⟨hnew, hidle ▸ List.mem_cons_self⟩
          · obtain ⟨hdrawn, hworker⟩ := h.made a ha
            exact ⟨hdrawn.later hmembers, hidle ▸ List.mem_cons_of_mem w hworker⟩

theorem draws_dispatch (s : Schedule) (f : Fleet) (now : Nat) :
    Draws s.pending s f (s.dispatch f now) :=
  draws_dispatchAll now s.pending s f

end Schedule
end RenderFarm
