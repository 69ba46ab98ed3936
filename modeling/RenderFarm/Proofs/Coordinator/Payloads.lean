import RenderFarm.Proofs.Coordinator.Lateness
import RenderFarm.Proofs.Execution.Groups

/-!
# RenderFarm.Proofs.Coordinator.Payloads

What a scheduled task is about is what its execution waits for.

* `Suits c t`: the task is of the session of its execution, and takes the inputs of the group that
  it is to merge.
* `Loaded c`: so does every task that is scheduled.
* `reacted_loaded`, `after_loaded`: in every run, also between a reaction and the dispatch pass.
-/

namespace RenderFarm
namespace Coordinator

open Execution (tasksOf Call Sound GroupsFrom)

def Suits (c : Coordinator) (t : Task) : Prop :=
  ∀ e, c.executions.find? t.execution = some e →
    t.session = e.session ∧ ∀ g, e.Merges t.name g → t.work = .reduce g.inputs

structure Loaded (c : Coordinator) : Prop where
  waiting : ∀ t ∈ c.schedule.queue, Suits c t
  flying : ∀ n a, c.schedule.inFlight.find? n = some a → Suits c a.task

variable {past : List (Moment × Event)} {done : List Tag} {c c' : Coordinator} {m : Moment}
  {event : Event} {t : Task}

@[simp] theorem suits_gist : Suits c t.gist ↔ Suits c t := by
  simp only [Suits, Task.work_gist]
  rfl

theorem mem_scheduled_queue (ht : t ∈ c.schedule.queue) : t.tag ∈ c.scheduled := by
  refine List.mem_append_left _ ?_
  rw [← Schedule.tags_queue]
  exact List.mem_map_of_mem ht

theorem mem_scheduled_flight {n : TaskName} {a : Assignment}
    (ha : c.schedule.inFlight.find? n = some a) : a.task.tag ∈ c.scheduled :=
  List.mem_append_right _ (Schedule.mem_running ha)

theorem Arisen.inputs {x : ExecutionName} {e : Execution} {n : TaskName} {g : MergeGroup}
    (h : Arisen x e) (hm : e.Merges n g) : ∀ r ∈ g.inputs, 0 < r.weight := by
  obtain ⟨policy, session, parallel, fetches, now, calls, rfl⟩ := h
  exact Execution.merges_inputs policy x session parallel fetches now calls hm

/-! ## Notices -/

section Told

variable {x : ExecutionName} {e e' : Execution} {ended : List TaskName} {ts : List Task}

/-- What is issued has new names, so it leaves the tasks alone that are scheduled. -/
theorem Suits.told {tags : List Tag} (h : Suits c t) (ht : t.tag ∈ tags) (hn : tags.Nodup)
    (hknown : Known tags c) (he : c.executions.find? x = some e) (hname : e.name = x)
    (ha : Execution.Accounts e ended ts e') (hgroups : GroupsFrom e ts e')
    (hx : c'.executions = c.executions.insert x e') : Suits c' t := by
  intro f hf
  rw [hx, OrderedMap.find?_insert] at hf
  split at hf
  · rename_i hxt
    cases hf
    obtain ⟨hsession, hwork⟩ := h e (hxt ▸ he)
    refine ⟨hsession.trans ha.terms.session.symm, fun g hm => ?_⟩
    rcases hgroups _ g hm with hm | ⟨u, hu, hname', _⟩
    · exact hwork g hm
    · have hnew := (List.nodup_append.1 (issued_new hn hknown he hname ha)).2.2
      have hu : (x, t.name) ∈ (ts.map Task.name).map (Prod.mk x) :=
        List.mem_map_of_mem (hname' ▸ List.mem_map_of_mem hu)
      refine absurd ?_ (hnew _ ht _ hu)
      rw [Task.tag, hxt]
  · exact h f hf

theorem suits_issued (hs : Sound e) (hname : e.name = x) (ha : Execution.Accounts e ended ts e')
    (hgroups : GroupsFrom e ts e') (hx : c'.executions = c.executions.insert x e') (ht : t ∈ ts) :
    Suits c' t := by
  intro f hf
  obtain ⟨howner, hsession⟩ := ha.owner t ht
  rw [hx, OrderedMap.find?_insert, if_pos (howner.trans hname).symm] at hf
  cases hf
  refine ⟨hsession.trans ha.terms.session.symm, fun g hm => ?_⟩
  rcases hgroups _ g hm with hm | ⟨u, hu, hname', hwork⟩
  · obtain ⟨k, hlt, hk⟩ := hs.below _ hm.outstanding
    obtain ⟨k', hle, _, hk'⟩ := ha.new_names (List.mem_map_of_mem ht)
    have := (TaskName.ofExecution_inj.1 (hk.symm.trans hk')).2
    omega
  · cases List.inj_on_of_nodup_map ha.names_nodup hu ht hname'
    exact hwork

end Told

theorem tell_loaded (hg : Grounded past c) (hs : Settled done c) (h : Loaded c) (now : Nat)
    (notice : Notice) : Loaded (tell now c notice) := by
  obtain ⟨x, call⟩ := notice
  rcases hg.tell_cases now x call with hsame | ⟨e, he, hname, hsound, htold⟩
  · rwa [hsame]
  · have ha := Execution.respond_accounts hsound call
    have hgroups := Execution.respond_groups e call
    have hold : ∀ u : Task, u.tag ∈ c.scheduled → Suits c u → Suits (tell now c (x, call)) u := by
      intro u hu hsuits
      exact hsuits.told (List.mem_append_left _ hu) hs.nodup hs.known he hname ha hgroups
        htold.executions
    refine ⟨fun u hu => ?_, fun n a hn => ?_⟩
    · rcases List.mem_append.1 (htold.queue.subset hu) with hu | hu
      · exact hold u (mem_scheduled_queue hu) (h.waiting u hu)
      · obtain ⟨v, hv, rfl⟩ := List.mem_map.1 hu
        exact suits_gist.2 (suits_issued hsound hname ha hgroups htold.executions hv)
    · obtain ⟨b, hb, hgist, _⟩ := Schedule.find?_of_flights htold.steady.flights hn
      have hsuits := hold b.task (mem_scheduled_flight hb) (h.flying n b hb)
      rw [← suits_gist, ← hgist, suits_gist]
      exact hsuits

/-! ## Openings -/

theorem opening_suits (hg : Grounded past c) (hs : Settled done c)
    (hn : (stamps ((m, event) :: past)).Nodup) (ht : t.tag ∈ c.scheduled) (h : Suits c t) :
    Suits (c.opening m event).coordinator t := by
  intro f hf
  obtain ⟨e, he, _⟩ := hs.known t.execution t.name (List.mem_append_left _ ht)
  cases (opening_executions hg hn he).symm.trans hf
  exact h f he

theorem opening_loaded (hg : Grounded past c) (hs : Settled done c) (h : Loaded c)
    (hn : (stamps ((m, event) :: past)).Nodup) : Loaded (c.opening m event).coordinator := by
  refine ⟨fun t ht => ?_, fun n a ha => ?_⟩
  · rw [opening_queue] at ht
    exact opening_suits hg hs hn (mem_scheduled_queue ht) (h.waiting t ht)
  · have ha := (opening_flights c m event).2 n a ha
    exact opening_suits hg hs hn (mem_scheduled_flight ha) (h.flying n a ha)

/-! ## Dispatch passes -/

theorem dispatch_loaded (h : Loaded c) (now : Nat) : Loaded (dispatch now c).coordinator := by
  obtain ⟨as, hd⟩ := Schedule.dealt_dispatch c.schedule c.fleet now
  refine ⟨fun t ht => ?_, fun n a ha => ?_⟩
  · exact h.waiting t (hd.tasks.subset (List.mem_append_right _ ht))
  · rcases hd.find? ha with ⟨ha, _⟩ | ha
    · have hmem : a.task.gist ∈ as.map fun a => a.task.gist := List.mem_map_of_mem ha
      exact suits_gist.1 (h.waiting _ (hd.tasks.subset (List.mem_append_left _ hmem)))
    · exact h.flying n a ha

/-! ## Runs -/

theorem reacted_loaded (hg : Grounded past c) (hs : Settled done c) (h : Loaded c)
    (hn : (stamps ((m, event) :: past)).Nodup) : Loaded (c.react m event).coordinator := by
  refine (react_keeps (P := fun c => Grounded ((m, event) :: past) c ∧ Settled _ c ∧ Loaded c)
    ⟨opening_grounded hg m event, opening_settled hg hs hn, opening_loaded hg hs h hn⟩ ?_).2.2
  rintro c notice ⟨hg, hs, h⟩
  exact ⟨tell_grounded m.now notice hg, tell_settled hg hs m.now notice,
    tell_loaded hg hs h m.now notice⟩

theorem after_loaded (settings : Settings) {past : List (Moment × Event)}
    (hn : (stamps past).Nodup) : Loaded (after settings past) := by
  induction past with
  | nil =>
    refine ⟨?_, ?_⟩
    · intro t ht
      cases ht
    · intro n a ha
      cases ha
  | cons p past ih =>
    obtain ⟨m, event⟩ := p
    have hreact : Loaded ((after settings past).react m event).coordinator :=
      reacted_loaded (after_grounded settings past) (after_settled settings (stamps_tail hn)).1
        (ih (stamps_tail hn)) hn
    exact handle_of_react hreact fun _ h => dispatch_loaded h m.now

end Coordinator
end RenderFarm
