import Mathlib.Data.List.Nodup
import Mathlib.Data.List.Perm.Subperm
import RenderFarm.Proofs.Schedule.Flights

/-!
# RenderFarm.Proofs.Schedule.Crew

The workers of a schedule: each of them is idle or busy, and whoever has a task is busy.

* `Manned s`: this, with at most one task to a worker.
* `Enlisted s w`: the worker takes part in the schedule, idle or busy.
* One lemma for each operation says that the schedule stays manned and who is enlisted after it.
-/

namespace RenderFarm
namespace Schedule

structure Manned (s : Schedule) : Prop where
  idle_nodup : s.idle.Nodup
  apart : ∀ w ∈ s.idle, w ∉ s.busy.keys
  held : ∀ n a, s.inFlight.find? n = some a → a.worker ∈ s.busy.keys
  single : ∀ n n' a a', s.inFlight.find? n = some a → s.inFlight.find? n' = some a' →
    a.worker = a'.worker → n = n'

def Enlisted (s : Schedule) (w : WorkerName) : Prop := w ∈ s.idle ∨ w ∈ s.busy.keys

variable {s s' : Schedule} {n : TaskName} {a : Assignment}

theorem manned_new (reducingFirst : Bool) : Manned (new reducingFirst) := by
  refine ⟨List.nodup_nil, ?_, ?_, ?_⟩
  · intro w hw
    cases hw
  · intro n a ha
    cases ha
  · intro n n' a a' ha
    cases ha

theorem Manned.steady (h : Manned s) (hs : Steady s s') : Manned s' := by
  refine ⟨hs.idle ▸ h.idle_nodup, ?_, ?_, ?_⟩
  · rw [hs.idle, hs.busy]
    exact h.apart
  · intro n a ha
    obtain ⟨b, hb, _, hw, _⟩ := find?_of_flights hs.flights ha
    rw [hs.busy, ← hw]
    exact h.held n b hb
  · intro n n' a a' ha ha' hw
    obtain ⟨b, hb, _, hbw, _⟩ := find?_of_flights hs.flights ha
    obtain ⟨b', hb', _, hbw', _⟩ := find?_of_flights hs.flights ha'
    exact h.single n n' b b' hb hb' (hbw.trans (hw.trans hbw'.symm))

theorem Steady.enlisted (hs : Steady s s') (w : WorkerName) : s'.Enlisted w ↔ s.Enlisted w := by
  rw [Enlisted, Enlisted, hs.idle, hs.busy]

theorem workerState?_isSome {w : WorkerName} :
    (s.workerState? w).isSome = true ↔ s.Enlisted w := by
  unfold workerState? Enlisted
  rw [OrderedMap.mem_keys_iff]
  cases s.busy.find? w with
  | some kind => simp
  | none =>
    by_cases hw : w ∈ s.idle
    · simp [hw]
    · simp [hw]

/-! ## The end of an assignment -/

/-- Without the assignment, its worker is left with no task. -/
theorem Manned.free (h : Manned s) (ha : s.inFlight.find? n = some a) {n' : TaskName}
    {a' : Assignment} (ha' : (s.inFlight.erase n).find? n' = some a') :
    s.inFlight.find? n' = some a' ∧ a'.worker ≠ a.worker := by
  rw [OrderedMap.find?_erase] at ha'
  split at ha'
  · cases ha'
  · rename_i hne
    refine ⟨ha', fun hw => hne ?_⟩
    exact h.single n n' a a' ha ha' hw.symm

theorem pending_complete {w : WorkerName} {b : Option Assignment}
    (h : s.complete w n = (s', b)) : s'.pending = s.pending := by
  unfold complete at h
  split at h
  · cases h
    rfl
  · split at h
    · dsimp only at h
      split at h <;> cases h <;> rfl
    · cases h
      rfl

theorem inFlight_complete {w : WorkerName} (h : s.complete w n = (s', some a)) :
    s'.inFlight = s.inFlight.erase n := by
  unfold complete at h
  split at h
  · cases h
  · split at h
    · dsimp only at h
      split at h <;> cases h <;> rfl
    · cases h

theorem find?_complete {w : WorkerName} {n' : TaskName} {b : Assignment}
    (h : s.complete w n = (s', some b)) (ha : s'.inFlight.find? n' = some a) :
    s.inFlight.find? n' = some a := by
  rw [inFlight_complete h] at ha
  exact OrderedMap.find?_of_erase ha

theorem find?_release {w : WorkerName} {n' : TaskName}
    (h : (s.release n w).inFlight.find? n' = some a) : s.inFlight.find? n' = some a :=
  OrderedMap.find?_of_erase h

theorem complete_some {w : WorkerName} (hm : Manned s) (h : s.complete w n = (s', some a)) :
    s.inFlight.find? n = some a ∧ a.worker = w ∧
    s' = { s with inFlight := s.inFlight.erase n, busy := s.busy.erase w,
                  idle := s.idle ++ [w] } := by
  unfold complete at h
  split at h
  · cases h
  · rename_i b hb
    split at h
    · rename_i hw
      have hbusy : s.busy.contains w = true := OrderedMap.contains_iff.2 (hw ▸ hm.held n b hb)
      simp only [hbusy, if_true] at h
      cases h
      exact ⟨hb, hw, rfl⟩
    · cases h

theorem manned_complete {w : WorkerName} (hm : Manned s) (h : s.complete w n = (s', some a)) :
    Manned s' ∧ ∀ v, s'.Enlisted v ↔ s.Enlisted v := by
  obtain ⟨ha, hw, rfl⟩ := complete_some hm h
  -- whoever reports has had a task, so it was busy and is idle only now
  have hbusy : w ∈ s.busy.keys := hw ▸ hm.held n a ha
  have hidle : w ∉ s.idle := fun hi => hm.apart w hi hbusy
  refine ⟨⟨?_, ?_, ?_, ?_⟩, fun v => ?_⟩
  · rw [← List.concat_eq_append]
    exact hm.idle_nodup.concat hidle
  · intro v hv hb
    rw [OrderedMap.mem_keys_erase] at hb
    rcases List.mem_append.1 hv with hv | hv
    · exact hm.apart v hv hb.2
    · exact hb.1 (List.mem_singleton.1 hv)
  · intro n' a' ha'
    obtain ⟨ha', hne⟩ := hm.free ha ha'
    exact OrderedMap.mem_keys_erase.2 ⟨hw ▸ hne, hm.held n' a' ha'⟩
  · intro n₁ n₂ a₁ a₂ h₁ h₂
    exact hm.single n₁ n₂ a₁ a₂ (hm.free ha h₁).1 (hm.free ha h₂).1
  · simp only [Enlisted, List.mem_append, List.mem_singleton, OrderedMap.mem_keys_erase]
    by_cases hv : v = w
    · simp [hv, hbusy]
    · simp [hv]

theorem manned_release (hm : Manned s) (ha : s.inFlight.find? n = some a) :
    Manned (s.release n a.worker) ∧
    ∀ v, (s.release n a.worker).Enlisted v ↔ v ≠ a.worker ∧ s.Enlisted v := by
  refine ⟨⟨hm.idle_nodup.filter _, ?_, ?_, ?_⟩, fun v => ?_⟩
  · intro v hv hb
    exact hm.apart v (List.mem_filter.1 hv).1 (OrderedMap.mem_keys_erase.1 hb).2
  · intro n' a' ha'
    obtain ⟨ha', hne⟩ := hm.free ha ha'
    exact OrderedMap.mem_keys_erase.2 ⟨hne, hm.held n' a' ha'⟩
  · intro n₁ n₂ a₁ a₂ h₁ h₂
    exact hm.single n₁ n₂ a₁ a₂ (hm.free ha h₁).1 (hm.free ha h₂).1
  · simp [Enlisted, release, OrderedMap.mem_keys_erase, and_or_left, and_comm]

theorem abort_some {ticket : Ticket} (h : s.abort n ticket = (s', some a)) :
    s.current? n ticket = some a ∧ s' = s.release n a.worker := by
  unfold abort at h
  split at h
  · rename_i b hb
    cases h
    exact ⟨hb, rfl⟩
  · cases h

theorem expire_expired {ticket : Ticket} {now : Nat}
    (h : s.expire n ticket now = (s', .expired a)) :
    s.current? n ticket = some a ∧ s' = s.release n a.worker := by
  unfold expire at h
  split at h
  · cases h
  · rename_i b hb
    split at h
    · cases h
    · cases h
      exact ⟨hb, rfl⟩

theorem current?_eq_some {ticket : Ticket} :
    s.current? n ticket = some a ↔ s.inFlight.find? n = some a ∧ a.ticket = ticket := by
  unfold current?
  cases s.inFlight.find? n with
  | none => simp
  | some b =>
    by_cases hb : b.ticket = ticket
    · simp only [hb, if_true, Option.some.injEq]
      exact ⟨fun h => ⟨h, h ▸ hb⟩, And.left⟩
    · simp only [hb, if_false, Option.some.injEq, reduceCtorEq, false_iff, not_and]
      exact fun h => h ▸ hb

/-! ## The workers -/

/-- To enlist workers is to make some of them idle, and nothing else. -/
theorem enlist_eq (s : Schedule) (ws : List WorkerName) :
    ∃ idle, s.enlist ws = { s with idle } := by
  induction ws generalizing s with
  | nil => exact ⟨s.idle, rfl⟩
  | cons w ws ih =>
    simp only [enlist]
    split
    · exact ih s
    · exact ih { s with idle := s.idle ++ [w] }

theorem inFlight_enlist (s : Schedule) (ws : List WorkerName) :
    (s.enlist ws).inFlight = s.inFlight := by
  obtain ⟨idle, h⟩ := enlist_eq s ws
  rw [h]

theorem manned_enlist (hm : Manned s) (ws : List WorkerName) :
    Manned (s.enlist ws) ∧ ∀ v, (s.enlist ws).Enlisted v ↔ v ∈ ws ∨ s.Enlisted v := by
  induction ws generalizing s with
  | nil => exact ⟨hm, by simp [enlist]⟩
  | cons w ws ih =>
    simp only [enlist]
    split
    · rename_i hw
      have hw : s.Enlisted w := by
        simpa [Enlisted, OrderedMap.contains_iff, or_comm] using hw
      obtain ⟨hm', hen⟩ := ih hm
      refine ⟨hm', fun v => ?_⟩
      rw [hen, List.mem_cons, or_assoc]
      refine ⟨.inr, fun h => ?_⟩
      rcases h with rfl | h
      · exact .inr hw
      · exact h
    · rename_i hw
      simp only [Bool.or_eq_true, decide_eq_true_eq, OrderedMap.contains_iff, not_or] at hw
      have hm₁ : Manned { s with idle := s.idle ++ [w] } := by
        refine ⟨?_, ?_, hm.held, hm.single⟩
        · rw [← List.concat_eq_append]
          exact hm.idle_nodup.concat hw.2
        · intro v hv
          rcases List.mem_append.1 hv with hv | hv
          · exact hm.apart v hv
          · exact List.mem_singleton.1 hv ▸ hw.1
      obtain ⟨hm', hen⟩ := ih hm₁
      refine ⟨hm', fun v => ?_⟩
      rw [hen, List.mem_cons]
      simp only [Enlisted, List.mem_append, List.mem_singleton]
      simp only [or_assoc, or_left_comm]

theorem syncWorkers_fst (s : Schedule) (members : List WorkerName) :
    ∃ idle, (s.syncWorkers members).1 = { s with
      idle
      busy := s.busy.filter fun w _ => w ∉ s.busy.keys.filter (· ∉ members)
      inFlight := s.inFlight.filter fun _ a => a.worker ∉ s.busy.keys.filter (· ∉ members) } := by
  obtain ⟨idle, h⟩ := enlist_eq { s with
    idle := s.idle.filter (· ∈ members)
    busy := s.busy.filter fun w _ => w ∉ s.busy.keys.filter (· ∉ members)
    inFlight := s.inFlight.filter fun _ a => a.worker ∉ s.busy.keys.filter (· ∉ members) } members
  exact ⟨idle, h⟩

theorem find?_syncWorkers {members : List WorkerName}
    (h : (s.syncWorkers members).1.inFlight.find? n = some a) :
    s.inFlight.find? n = some a ∧ (a.worker ∈ s.busy.keys → a.worker ∈ members) := by
  obtain ⟨idle, heq⟩ := syncWorkers_fst s members
  rw [heq] at h
  simp only [OrderedMap.find?_filter, Option.filter_eq_some_iff] at h
  exact ⟨h.1, by simpa [Classical.or_iff_not_imp_left] using h.2⟩

theorem pending_syncWorkers (s : Schedule) (members : List WorkerName) :
    (s.syncWorkers members).1.pending = s.pending := by
  obtain ⟨idle, heq⟩ := syncWorkers_fst s members
  rw [heq]

/-- After the workers are followed, exactly the members take part. -/
theorem manned_syncWorkers (hm : Manned s) (members : List WorkerName) :
    Manned (s.syncWorkers members).1 ∧
    ∀ v, (s.syncWorkers members).1.Enlisted v ↔ v ∈ members := by
  -- first the workers that left are taken out, then the members that are new are made idle
  let lost := s.busy.keys.filter (· ∉ members)
  let kept := { s with
    idle := s.idle.filter (· ∈ members)
    busy := s.busy.filter fun w _ => w ∉ lost
    inFlight := s.inFlight.filter fun _ a => a.worker ∉ lost }
  have hbusy : ∀ v, v ∈ kept.busy.keys ↔ v ∈ s.busy.keys ∧ v ∈ members := by
    intro v
    simp only [kept, OrderedMap.mem_keys_iff, OrderedMap.find?_filter, Option.filter_eq_some_iff,
      exists_and_right]
    refine and_congr_right fun hv => ?_
    simp [lost, OrderedMap.mem_keys_iff, hv]
  have hflight : ∀ n a, kept.inFlight.find? n = some a →
      s.inFlight.find? n = some a ∧ (a.worker ∈ s.busy.keys → a.worker ∈ members) := by
    intro n a ha
    refine find?_syncWorkers ?_
    rw [show (s.syncWorkers members).1 = kept.enlist members from rfl, inFlight_enlist, ha]
  have hkept : Manned kept := by
    refine ⟨hm.idle_nodup.filter _, ?_, ?_, ?_⟩
    · intro v hv hb
      exact hm.apart v (List.mem_filter.1 hv).1 ((hbusy v).1 hb).1
    · intro n a ha
      obtain ⟨ha, hmember⟩ := hflight n a ha
      have hb := hm.held n a ha
      exact (hbusy _).2 ⟨hb, hmember hb⟩
    · intro n₁ n₂ a₁ a₂ h₁ h₂
      exact hm.single n₁ n₂ a₁ a₂ (hflight n₁ a₁ h₁).1 (hflight n₂ a₂ h₂).1
  obtain ⟨hm', hen⟩ := manned_enlist hkept members
  refine ⟨hm', fun v => (hen v).trans ⟨fun h => ?_, .inl⟩⟩
  rcases h with h | h | h
  · exact h
  · simpa using (List.mem_filter.1 h).2
  · exact ((hbusy v).1 h).2

/-! ## Dispatch passes -/

section Dealt

variable {ts : List Task} {f : Fleet} {as : List Assignment} {p : Pass}

/-- What is on its way after a pass was assigned in it, or before it. -/
theorem Dealt.find? (h : Dealt ts s f as p) {b : Assignment}
    (hb : p.schedule.inFlight.find? n = some b) :
    (b ∈ as ∧ b.task.name = n) ∨ s.inFlight.find? n = some b := by
  rw [h.inFlight] at hb
  refine (OrderedMap.find?_foldl_insert hb).imp_left ?_
  rintro ⟨a, ha, hn, rfl⟩
  exact ⟨ha, hn⟩

theorem Dealt.busy_keys (h : Dealt ts s f as p) {w : WorkerName} :
    w ∈ p.schedule.busy.keys ↔ w ∈ as.map Assignment.worker ∨ w ∈ s.busy.keys := by
  rw [h.busy]
  exact OrderedMap.mem_keys_foldl_insert

theorem Dealt.keyed (h : Dealt ts s f as p) (hk : s.Keyed) : p.schedule.Keyed := by
  intro n b hb
  rcases h.find? (OrderedMap.mem_entries_iff.1 hb) with ⟨_, hn⟩ | hb
  · exact hn
  · exact hk n b (OrderedMap.mem_entries_iff.2 hb)

/-- The tickets of a pass were not given out before it. -/
theorem Dealt.ticket (h : Dealt ts s f as p) {b : Assignment} (hb : b ∈ as) :
    s.nextTicket ≤ b.ticket ∧ b.ticket < p.schedule.nextTicket := by
  have hmem : b.ticket ∈ as.map Assignment.ticket := List.mem_map_of_mem hb
  rw [h.tickets, List.mem_range'_1] at hmem
  rwa [h.next]

theorem Dealt.tickets_nodup (h : Dealt ts s f as p) : (as.map Assignment.ticket).Nodup :=
  h.tickets ▸ List.nodup_range' 1

theorem Dealt.nextTicket_le (h : Dealt ts s f as p) : s.nextTicket ≤ p.schedule.nextTicket :=
  h.next ▸ Nat.le_add_right _ _

theorem Dealt.flying (h : Dealt ts s f as p)
    (hf : ∀ n a, s.inFlight.find? n = some a → a.ticket < s.nextTicket) :
    ∀ n a, p.schedule.inFlight.find? n = some a → a.ticket < p.schedule.nextTicket := by
  intro n b hb
  rcases h.find? hb with ⟨hb, _⟩ | hb
  · exact (h.ticket hb).2
  · exact Nat.lt_of_lt_of_le (hf n b hb) h.nextTicket_le

theorem Dealt.tags (h : Dealt s.pending s f as p) :
    (as.map (fun a => a.task.tag) ++ p.schedule.waiting).Sublist s.waiting := by
  simpa [queue, waiting, Function.comp_def] using h.tasks.map Task.tag

/-- The new assignments stand behind those that were there. -/
theorem Dealt.entries (h : Dealt s.pending s f as p) (hk : s.Keyed)
    (hn : ((s.waiting ++ s.running).map Prod.snd).Nodup) :
    p.schedule.inFlight.entries = s.inFlight.entries ++ as.map fun a => (a.task.name, a) := by
  rw [List.map_append, running_keys hk] at hn
  obtain ⟨hwait, _, hapart⟩ := List.nodup_append.1 hn
  have hnames : ((as.map fun a => a.task.name) ++ p.schedule.waiting.map Prod.snd).Sublist
      (s.waiting.map Prod.snd) := by
    simpa [Function.comp_def, Task.tag] using h.tags.map Prod.snd
  rw [h.inFlight]
  refine OrderedMap.entries_foldl_insert (hwait.sublist ?_) fun a ha hold => ?_
  · exact (List.sublist_append_left _ _).trans hnames
  · refine hapart _ (hnames.subset (List.mem_append_left _ ?_)) _ hold rfl
    exact List.mem_map_of_mem ha

/-- The new posts stand behind those that were there. -/
theorem Dealt.posts (h : Dealt ts s f as p) (hm : Manned s) :
    p.schedule.busy.entries = s.busy.entries ++ as.map fun a => (a.worker, a.task.kind) := by
  have hsub : (as.map Assignment.worker).Sublist s.idle :=
    (List.sublist_append_left _ _).trans h.workers
  rw [h.busy]
  refine OrderedMap.entries_foldl_insert (hm.idle_nodup.sublist hsub) fun a ha => ?_
  exact hm.apart _ (hsub.subset (List.mem_map_of_mem ha))

/-- No task is scheduled after a pass that was not before it; one is missing if no ticket was left
for it. -/
theorem Dealt.scheduled (h : Dealt s.pending s f as p) (hk : s.Keyed)
    (hn : ((s.waiting ++ s.running).map Prod.snd).Nodup) :
    (p.schedule.waiting ++ p.schedule.running).Subperm (s.waiting ++ s.running) := by
  have hrun : p.schedule.running = s.running ++ as.map fun a => a.task.tag := by
    simp [running, OrderedMap.values, h.entries hk hn, Function.comp_def]
  have hperm : (p.schedule.waiting ++ p.schedule.running).Perm
      (as.map (fun a => a.task.tag) ++ p.schedule.waiting ++ s.running) := by
    rw [hrun, List.perm_iff_count]
    intro g
    simp only [List.count_append]
    omega
  exact hperm.subperm.trans (h.tags.append_right _).subperm

theorem Dealt.manned (h : Dealt ts s f as p) (hm : Manned s) : Manned p.schedule := by
  have hnodup := hm.idle_nodup.sublist h.workers
  rw [List.nodup_append] at hnodup
  obtain ⟨has, hidle, hdisjoint⟩ := hnodup
  have hfree : ∀ a ∈ as, a.worker ∈ s.idle := fun a ha =>
    h.workers.subset (List.mem_append_left _ (List.mem_map_of_mem ha))
  refine ⟨hidle, ?_, ?_, ?_⟩
  · intro w hw hb
    rcases h.busy_keys.1 hb with hb | hb
    · exact hdisjoint w hb w hw rfl
    · exact hm.apart w (h.workers.subset (List.mem_append_right _ hw)) hb
  · intro n b hb
    rcases h.find? hb with ⟨hb, _⟩ | hb
    · exact h.busy_keys.2 (.inl (List.mem_map_of_mem hb))
    · exact h.busy_keys.2 (.inr (hm.held n b hb))
  · intro n n' b b' hb hb' hw
    -- a new assignment is to an idle worker, an old one to a busy one
    rcases h.find? hb with ⟨hnew, rfl⟩ | hold
    · rcases h.find? hb' with ⟨hnew', rfl⟩ | hold'
      · rw [List.inj_on_of_nodup_map has hnew hnew' hw]
      · exact absurd (hw ▸ hm.held n' b' hold') (hm.apart _ (hfree b hnew))
    · rcases h.find? hb' with ⟨hnew', rfl⟩ | hold'
      · exact absurd (hw ▸ hm.held n b hold) (hm.apart _ (hfree b' hnew'))
      · exact hm.single n n' b b' hold hold' hw

/-- A pass that finds enough tickets only moves workers from idle to busy. -/
theorem Dealt.enlisted (h : Dealt ts s f as p)
    (hroom : s.nextTicket + min ts.length s.idle.length ≤ Word.top) (w : WorkerName) :
    p.schedule.Enlisted w ↔ s.Enlisted w := by
  obtain ⟨_, _, hidle⟩ := h.all hroom
  rw [Enlisted, Enlisted, h.busy_keys, ← hidle, List.mem_append]
  simp only [or_left_comm, or_comm]

end Dealt

end Schedule
end RenderFarm
