import RenderFarm.Proofs.Fleet.Caches

/-!
# RenderFarm.Proofs.Fleet.Holders

The lists of holders, one for each tracked session.

* `Distinct`: nobody is in a list twice; `distinct_perform`, no operation brings anybody in twice.
* `known_holders`: the holders of a session that are in the cluster, each of them once.
-/

namespace RenderFarm
namespace Fleet

variable {f : Fleet} {w : WorkerName} {ss : List SessionName}

/-! ## Nobody twice -/

/-- No list of holders has a worker twice. -/
def Distinct (f : Fleet) : Prop := ∀ s holders, f.caches.find? s = some holders → holders.Nodup

theorem nodup_back {holders : List WorkerName} (h : holders.Nodup) (hw : w ∉ holders) :
    (holders ++ [w]).Nodup := by
  refine List.nodup_append.2 ⟨h, List.pairwise_singleton _ _, fun v hv x hx heq => hw ?_⟩
  rwa [← List.mem_singleton.1 hx, ← heq]

theorem nodup_addHolder {holders : List WorkerName} (h : holders.Nodup) :
    (addHolder w holders).Nodup := by
  unfold addHolder
  split
  · exact h
  · rename_i hw
    exact nodup_back h hw

theorem Distinct.mapValues (h : Distinct f)
    {g : SessionName → List WorkerName → List WorkerName}
    (hg : ∀ s holders, holders.Nodup → (g s holders).Nodup) :
    Distinct { f with caches := f.caches.mapValues g } := by
  intro s holders hs
  rw [OrderedMap.find?_mapValues] at hs
  obtain ⟨before, hbefore, rfl⟩ := Option.map_eq_some_iff.1 hs
  exact hg s before (h s before hbefore)

theorem Distinct.insert (h : Distinct f) {holders : List WorkerName} (hn : holders.Nodup)
    (s : SessionName) : Distinct { f with caches := f.caches.insert s holders } := by
  intro s' holders' hs
  rw [OrderedMap.find?_insert] at hs
  split at hs
  · cases hs
    exact hn
  · exact h s' holders' hs

theorem Distinct.congr {f' : Fleet} (h : Distinct f) (hc : f'.caches = f.caches) : Distinct f' :=
  fun s holders hs => h s holders (hc ▸ hs)

theorem Distinct.updateCaches (h : Distinct f) : Distinct (f.updateCaches w ss) :=
  h.mapValues fun s holders hn => by
    split
    · exact nodup_addHolder hn
    · exact hn.erase w

theorem Distinct.purge (h : Distinct f) (names : List WorkerName) : Distinct (f.purge names) :=
  h.mapValues fun _ _ hn => hn.filter _

/-- Whoever is used next goes from where it was to the back. -/
theorem Distinct.takeCached (h : Distinct f) (s : SessionName) : Distinct (f.takeCached s).2 := by
  unfold Fleet.takeCached
  split
  · exact h
  · rename_i holders hs
    have hn := h s holders hs
    split
    · exact h
    · rename_i w hw
      have hback : w ∉ holders.erase w := fun hmem => ((List.Nodup.mem_erase_iff hn).1 hmem).1 rfl
      exact h.insert (nodup_back (hn.erase w) hback) s

theorem distinct_perform (h : Distinct f) (op : Operation) : Distinct (f.perform op) := by
  cases op with
  | reconcile ws =>
    have hgone := h.purge
      ((f.members.entries.filter fun e => !(roster ws).contains e.1).map Prod.fst)
    exact (hgone.congr rfl).purge (f.reconcile ws).2.condemned
  | pong v ss =>
    simp only [perform, pong]
    split
    · exact h
    · split
      · exact h
      · exact (h.congr rfl).updateCaches
  | evict v => exact h.congr (caches_evict f v)
  | track s =>
    simp only [perform, track, OrderedMap.insertNew]
    split
    · exact h
    · exact h.insert List.nodup_nil s
  | untrack s =>
    intro s' holders hs
    exact h s' holders (OrderedMap.find?_of_erase hs)
  | updateCaches v ss => exact h.updateCaches
  | markCached v s =>
    simp only [perform, markCached]
    split
    · rename_i holders hs
      exact h.insert (nodup_addHolder (h s holders hs)) s
    · exact h
  | takeCached s => exact h.takeCached s

theorem distinct_foldl (h : Distinct f) (ops : List Operation) :
    Distinct (ops.foldl perform f) :=
  List.foldlRecOn ops _ h fun _ hf op _ => distinct_perform hf op

/-! ## Holders in the cluster -/

theorem worker?_eq_some {x : Worker} (h : Orderly f.members) (hx : f.worker? w = some x) :
    x.name = w := by
  obtain ⟨m, hm, rfl⟩ := Option.map_eq_some_iff.1 hx
  exact (h w m hm).named

theorem names_filterMap_worker? (h : Orderly f.members) (holders : List WorkerName) :
    ((holders.filterMap f.worker?).map Worker.name).Sublist holders := by
  induction holders with
  | nil => exact List.Sublist.slnil
  | cons w holders ih =>
    rw [List.filterMap_cons]
    split
    · exact ih.cons w
    · rename_i x hx
      rw [List.map_cons, worker?_eq_some h hx]
      exact ih.cons_cons w

/-- The holders of a session that are in the cluster, each of them once. -/
theorem known_holders (ho : Orderly f.members) (hd : Distinct f) (s : SessionName) :
    (∀ x, x ∈ ((f.caches.find? s).getD []).filterMap f.worker? ↔
      ∃ w, Holds f w s ∧ f.worker? w = some x) ∧
    ((((f.caches.find? s).getD []).filterMap f.worker?).map Worker.name).Nodup := by
  cases hs : f.caches.find? s with
  | none => simp [Holds, hs]
  | some holders =>
    refine ⟨fun x => ?_, (hd s holders hs).sublist (names_filterMap_worker? ho holders)⟩
    simp [Holds, hs, List.mem_filterMap]

end Fleet
end RenderFarm
