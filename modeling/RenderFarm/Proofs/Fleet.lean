import RenderFarm.Fleet
import RenderFarm.Proofs.OrderedMap

/-!
# RenderFarm.Proofs.Fleet

Which of the listed workers are alive.

* `mem_live`: the live workers are the registered ones.
* The lemmas `members_*`: nothing that is noted about caches touches the listed workers.
* `Orderly`: every worker is listed under its own name, and no condemned one is registered; every
  round, pong and eviction leaves a fleet so.
-/

namespace RenderFarm

structure Member.Orderly (w : WorkerName) (m : Member) : Prop where
  named : m.worker.name = w
  alive : m.registered = true → m.liveness ≠ .condemned

namespace Fleet

variable {f : Fleet} {v w : WorkerName}

theorem isAlive_iff : f.isAlive w = true ↔
    ∃ m, f.members.find? w = some m ∧ m.registered = true := by
  unfold isAlive
  cases f.members.find? w with
  | none => simp
  | some m => simp

theorem mem_live : w ∈ f.live ↔ f.isAlive w = true := by
  rw [isAlive_iff]
  simp only [live, List.mem_map, List.mem_filter]
  constructor
  · rintro ⟨⟨v, m⟩, ⟨he, hm⟩, rfl⟩
    exact ⟨m, OrderedMap.mem_entries_iff.1 he, hm⟩
  · rintro ⟨m, hm, hr⟩
    exact ⟨(w, m), ⟨OrderedMap.mem_entries_iff.2 hm, hr⟩, rfl⟩

theorem isAlive_congr {f' : Fleet} (h : f'.members = f.members) (w : WorkerName) :
    f'.isAlive w = f.isAlive w := by
  simp only [isAlive, h]

/-! ## Caches -/

@[simp] theorem members_updateCaches (f : Fleet) (w : WorkerName) (ss : List SessionName) :
    (f.updateCaches w ss).members = f.members :=
  rfl

@[simp] theorem members_markCached (f : Fleet) (w : WorkerName) (s : SessionName) :
    (f.markCached w s).members = f.members := by
  unfold markCached
  split <;> rfl

@[simp] theorem members_takeCached (f : Fleet) (s : SessionName) :
    (f.takeCached s).2.members = f.members := by
  unfold takeCached
  split
  · rfl
  · split <;> rfl

/-- A worker's list of caches changes only where that worker is among the holders. -/
theorem find?_updateCaches (f : Fleet) (w : WorkerName) (ss : List SessionName) (s : SessionName) :
    (f.updateCaches w ss).caches.find? s = (f.caches.find? s).map fun holders =>
      if s ∈ ss then addHolder w holders else holders.erase w :=
  OrderedMap.find?_mapValues _ _ _

theorem mem_addHolder (w : WorkerName) (holders : List WorkerName) :
    v ∈ addHolder w holders ↔ v = w ∨ v ∈ holders := by
  unfold addHolder
  split
  · rename_i hw
    refine ⟨.inr, fun h => ?_⟩
    rcases h with rfl | h
    · exact hw
    · exact h
  · simp [or_comm]

/-! ## Members in order -/

def Orderly (ms : OrderedMap WorkerName Member) : Prop :=
  ∀ w m, ms.find? w = some m → m.Orderly w

theorem Orderly.insert {ms : OrderedMap WorkerName Member} {m : Member} (h : Orderly ms)
    (hm : m.Orderly w) : Orderly (ms.insert w m) := by
  intro v m' hv
  rw [OrderedMap.find?_insert] at hv
  split at hv
  · rename_i heq
    cases hv
    exact heq ▸ hm
  · exact h v m' hv

theorem Orderly.filter {ms : OrderedMap WorkerName Member} (h : Orderly ms)
    (p : WorkerName → Member → Bool) : Orderly (ms.filter p) := by
  intro v m hv
  rw [OrderedMap.find?_filter] at hv
  exact h v m (Option.filter_eq_some_iff.1 hv).1

theorem orderly_visit {m : Member} {listed : Worker} (h : m.Orderly listed.name)
    (patience : Nat) : (visit patience m listed).Orderly listed.name := by
  unfold visit
  split
  · exact h
  · split
    · exact ⟨h.named, by simp⟩
    · exact ⟨rfl, by simp⟩

theorem orderly_visitAll (patience : Nat) (ws : List Worker) {ms : OrderedMap WorkerName Member}
    (h : Orderly ms) : Orderly (visitAll patience ws ms).1 := by
  induction ws generalizing ms with
  | nil => exact h
  | cons w ws ih =>
    have hm : ((ms.find? w.name).getD { worker := w }).Orderly w.name := by
      cases hw : ms.find? w.name with
      | none => exact ⟨rfl, by simp⟩
      | some m => exact h w.name m hw
    have hrest := ih (h.insert (orderly_visit hm patience))
    simp only [visitAll]
    split
    · exact hrest
    · split <;> exact hrest

theorem orderly_reconcile (h : Orderly f.members) (ws : List Worker) :
    Orderly (f.reconcile ws).1.members :=
  orderly_visitAll _ _ (h.filter _)

theorem orderly_pong (h : Orderly f.members) (w : WorkerName) (ss : List SessionName) :
    Orderly (f.pong w ss).1.members := by
  unfold pong
  split
  · exact h
  · rename_i m hm
    split
    · exact h
    · exact h.insert ⟨(h w m hm).named, by simp⟩

theorem orderly_evict (h : Orderly f.members) (w : WorkerName) :
    Orderly (f.evict w).1.members := by
  unfold evict
  split
  · exact h
  · rename_i m hm
    split
    · exact h.insert ⟨(h w m hm).named, by simp⟩
    · exact h

/-! ## Who is alive -/

/-- A pong that registers nobody changes nothing about who is alive. -/
theorem isAlive_pong {ss : List SessionName} (h : (f.pong w ss).2 ≠ .registered)
    (v : WorkerName) : (f.pong w ss).1.isAlive v = f.isAlive v := by
  unfold pong at h ⊢
  split
  · rfl
  · rename_i m hm
    split
    · rfl
    · rename_i n hn
      have hreg : m.registered = true := by
        simp only [hm, hn] at h
        by_cases hr : m.registered = true
        · exact hr
        · simp [hr] at h
      simp only [isAlive, members_updateCaches, OrderedMap.find?_insert]
      by_cases hv : w = v
      · subst hv
        simp [hm, hreg]
      · simp [hv]

theorem isAlive_evict : (f.evict w).1.isAlive v = true ↔ v ≠ w ∧ f.isAlive v = true := by
  unfold evict
  split
  · rename_i hm
    refine ⟨fun h => ⟨?_, h⟩, And.right⟩
    rintro rfl
    simp [isAlive, hm] at h
  · rename_i m hm
    split
    · simp only [isAlive, OrderedMap.find?_insert]
      by_cases hv : w = v
      · simp [hv]
      · simp [hv, Ne.symm hv]
    · rename_i hr
      refine ⟨fun h => ⟨?_, h⟩, And.right⟩
      rintro rfl
      simp [isAlive, hm, hr] at h

end Fleet
end RenderFarm
