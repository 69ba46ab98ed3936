import RenderFarm.Proofs.Fleet

/-!
# RenderFarm.Proofs.Fleet.Rounds

What a round does to each worker.

* `listing ws v`: the entry of the list that counts for the name.
* `visitAll_members`, `visitAll_round`: a pass over workers of different names visits each as it was
  before the pass.
* `find?_reconcile`, `mem_pings`, `mem_condemned`, `registered_of_mem_removed`: the members after a
  round, and what the round asks for.
-/

namespace RenderFarm

/-- Too many pings have gone unanswered. -/
def Member.overdue (patience : Nat) (m : Member) : Bool :=
  match m.liveness with
  | .waiting n => patience ≤ n
  | .condemned => false

def Member.pingable (patience : Nat) (m : Member) : Bool :=
  match m.liveness with
  | .waiting n => n < patience
  | .condemned => false

namespace Fleet

/-- A worker that is not known is as good as new. -/
def seen (ms : OrderedMap WorkerName Member) (w : Worker) : Member :=
  (ms.find? w.name).getD { worker := w }

def roster (ws : List Worker) : OrderedMap WorkerName Worker :=
  OrderedMap.ofList (ws.map fun w => (w.name, w))

/-- Of a name listed twice the later entry counts. -/
def listing (ws : List Worker) (v : WorkerName) : Option Worker := (roster ws).find? v

variable {f : Fleet} {ws : List Worker} {w : Worker} {v : WorkerName} {patience : Nat}
  {ms : OrderedMap WorkerName Member}

/-! ## Listings -/

theorem listing_eq_some (h : listing ws v = some w) : w ∈ ws ∧ w.name = v := by
  unfold listing roster OrderedMap.ofList at h
  rcases OrderedMap.find?_foldl_insert h with ⟨e, he, rfl, rfl⟩ | hnone
  · obtain ⟨x, hx, rfl⟩ := List.mem_map.1 he
    exact ⟨hx, rfl⟩
  · cases hnone

theorem mem_keys_roster : v ∈ (roster ws).keys ↔ v ∈ ws.map Worker.name := by
  rw [roster, OrderedMap.ofList, OrderedMap.mem_keys_foldl_insert]
  simp [OrderedMap.keys, OrderedMap.empty]

theorem listing_eq_none : listing ws v = none ↔ v ∉ ws.map Worker.name := by
  rw [listing, OrderedMap.find?_eq_none_iff, mem_keys_roster]

theorem listing_of_mem (h : v ∈ ws.map Worker.name) : ∃ w, listing ws v = some w := by
  cases hw : listing ws v with
  | none => exact absurd h (listing_eq_none.1 hw)
  | some w => exact ⟨w, rfl⟩

theorem mem_roster : w ∈ (roster ws).values ↔ listing ws w.name = some w := by
  rw [OrderedMap.mem_values_iff]
  constructor
  · rintro ⟨v, hv⟩
    obtain rfl := (listing_eq_some hv).2
    exact hv
  · intro h
    exact ⟨w.name, h⟩

theorem map_name_roster (ws : List Worker) :
    (roster ws).values.map Worker.name = (roster ws).keys := by
  rw [OrderedMap.values, OrderedMap.keys, List.map_map]
  refine List.map_congr_left ?_
  rintro ⟨v, w⟩ he
  exact (listing_eq_some (OrderedMap.mem_entries_iff.1 he)).2

theorem names_roster (ws : List Worker) : ((roster ws).values.map Worker.name).Nodup := by
  rw [map_name_roster]
  exact (roster ws).nodup

theorem mem_names_filter {p : Worker → Bool} :
    v ∈ ((roster ws).values.filter p).map Worker.name ↔
      ∃ w, listing ws v = some w ∧ p w = true := by
  simp only [List.mem_map, List.mem_filter, mem_roster]
  constructor
  · rintro ⟨w, ⟨hw, hp⟩, rfl⟩
    exact ⟨w, hw, hp⟩
  · rintro ⟨w, hw, hp⟩
    obtain rfl := (listing_eq_some hw).2
    exact ⟨w, ⟨hw, hp⟩, rfl⟩

/-! ## A pass over the listed workers -/

theorem seen_insert {u : Worker} {m : Member} (h : u.name ≠ w.name) :
    seen (ms.insert u.name m) w = seen ms w := by
  simp only [seen, OrderedMap.find?_insert, if_neg h]

theorem visitAll_cons (patience : Nat) (w : Worker) (ws : List Worker)
    (ms : OrderedMap WorkerName Member) :
    visitAll patience (w :: ws) ms =
      ((visitAll patience ws (ms.insert w.name (visit patience (seen ms w) w))).1,
        let round := (visitAll patience ws (ms.insert w.name (visit patience (seen ms w) w))).2
        ⟨if (seen ms w).pingable patience then w :: round.pings else round.pings,
          if (seen ms w).overdue patience then w.name :: round.condemned else round.condemned,
          if (seen ms w).overdue patience && (seen ms w).registered then w.name :: round.removed
          else round.removed⟩) := by
  have hseen : (ms.find? w.name).getD { worker := w } = seen ms w := rfl
  simp only [visitAll, hseen]
  generalize seen ms w = m
  obtain ⟨worker, liveness, registered⟩ := m
  simp only [Member.pingable, Member.overdue]
  cases liveness with
  | condemned => simp
  | waiting n =>
    by_cases hn : patience ≤ n
    · have hlt : ¬ n < patience := by omega
      simp [hn, hlt]
    · have hlt : n < patience := by omega
      simp [hn, hlt]

theorem visitAll_members (patience : Nat) (ms : OrderedMap WorkerName Member)
    (hn : (ws.map Worker.name).Nodup) (v : WorkerName) :
    (v ∉ ws.map Worker.name → (visitAll patience ws ms).1.find? v = ms.find? v) ∧
    ∀ w ∈ ws, w.name = v →
      (visitAll patience ws ms).1.find? v = some (visit patience (seen ms w) w) := by
  induction ws generalizing ms with
  | nil => exact ⟨fun _ => rfl, by simp⟩
  | cons u ws ih =>
    rw [List.map_cons, List.nodup_cons] at hn
    obtain ⟨hout, hin⟩ := ih (ms.insert u.name (visit patience (seen ms u) u)) hn.2
    rw [visitAll_cons]
    refine ⟨?_, ?_⟩
    · intro hv
      rw [List.map_cons, List.mem_cons, not_or] at hv
      rw [hout hv.2, OrderedMap.find?_insert, if_neg (Ne.symm hv.1)]
    · intro w hw hname
      rcases List.mem_cons.1 hw with rfl | hw
      · rw [hout (hname ▸ hn.1), OrderedMap.find?_insert, if_pos hname]
      · have hne : u.name ≠ w.name := by
          intro heq
          exact hn.1 (heq ▸ List.mem_map_of_mem hw)
        rw [hin w hw hname, seen_insert hne]

/-- Each worker gets what it is due by what was known of it before the pass. -/
theorem visitAll_round (patience : Nat) (ms : OrderedMap WorkerName Member)
    (hn : (ws.map Worker.name).Nodup) :
    (visitAll patience ws ms).2 =
      ⟨ws.filter fun w => (seen ms w).pingable patience,
        (ws.filter fun w => (seen ms w).overdue patience).map Worker.name,
        (ws.filter fun w => (seen ms w).overdue patience && (seen ms w).registered).map
          Worker.name⟩ := by
  induction ws generalizing ms with
  | nil => rfl
  | cons u ws ih =>
    rw [List.map_cons, List.nodup_cons] at hn
    have hseen : ∀ w ∈ ws,
        seen (ms.insert u.name (visit patience (seen ms u) u)) w = seen ms w := by
      intro w hw
      refine seen_insert ?_
      intro heq
      exact hn.1 (heq ▸ List.mem_map_of_mem hw)
    have hfilter : ∀ p : Member → Bool,
        (ws.filter fun w => p (seen (ms.insert u.name (visit patience (seen ms u) u)) w)) =
          ws.filter fun w => p (seen ms w) := by
      intro p
      refine List.filter_congr ?_
      intro w hw
      rw [hseen w hw]
    rw [visitAll_cons, ih _ hn.2]
    simp only [List.filter_cons, hfilter (Member.pingable patience),
      hfilter (Member.overdue patience), hfilter fun m => m.overdue patience && m.registered]
    congr 1
    · split <;> rfl
    · split <;> rfl

/-! ## Rounds -/

theorem find?_dropUnlisted (f : Fleet) (ws : List Worker) (v : WorkerName) :
    (f.dropUnlisted (roster ws)).1.members.find? v =
      if v ∈ ws.map Worker.name then f.members.find? v else none := by
  have hcontains : (roster ws).contains v = decide (v ∈ ws.map Worker.name) := by
    rw [Bool.eq_iff_iff, OrderedMap.contains_iff, decide_eq_true_eq]
    exact mem_keys_roster
  simp only [dropUnlisted, purge, OrderedMap.find?_filter, hcontains]
  split
  · rename_i hv
    cases f.members.find? v <;> simp [Option.filter, hv]
  · rename_i hv
    cases f.members.find? v <;> simp [Option.filter, hv]

theorem seen_dropUnlisted (h : w ∈ (roster ws).values) :
    seen (f.dropUnlisted (roster ws)).1.members w = seen f.members w := by
  have hmem : w.name ∈ ws.map Worker.name :=
    List.mem_map_of_mem (listing_eq_some (mem_roster.1 h)).1
  simp only [seen, find?_dropUnlisted, if_pos hmem]

theorem find?_reconcile (f : Fleet) (ws : List Worker) (v : WorkerName) :
    (f.reconcile ws).1.members.find? v =
      (listing ws v).map fun w => visit f.patience (seen f.members w) w := by
  have hmembers : (f.reconcile ws).1.members =
      (visitAll f.patience (roster ws).values (f.dropUnlisted (roster ws)).1.members).1 := rfl
  obtain ⟨hout, hin⟩ := visitAll_members f.patience (f.dropUnlisted (roster ws)).1.members
    (names_roster ws) v
  rw [hmembers]
  cases hv : listing ws v with
  | none =>
    have hunlisted : v ∉ (roster ws).values.map Worker.name := by
      intro hmem
      obtain ⟨w, hw, rfl⟩ := List.mem_map.1 hmem
      rw [mem_roster.1 hw] at hv
      cases hv
    rw [hout hunlisted, find?_dropUnlisted, if_neg (listing_eq_none.1 hv)]
    rfl
  | some w =>
    have hname := (listing_eq_some hv).2
    have hw : w ∈ (roster ws).values := mem_roster.2 (hname ▸ hv)
    rw [hin w hw hname, seen_dropUnlisted hw]
    rfl

theorem round_reconcile (f : Fleet) (ws : List Worker) :
    (f.reconcile ws).2.pings =
        ((roster ws).values.filter fun w => (seen f.members w).pingable f.patience) ∧
    (f.reconcile ws).2.condemned =
        ((roster ws).values.filter fun w => (seen f.members w).overdue f.patience).map
          Worker.name ∧
    (f.reconcile ws).2.removed = (f.dropUnlisted (roster ws)).2 ++
        ((roster ws).values.filter fun w =>
          (seen f.members w).overdue f.patience && (seen f.members w).registered).map
            Worker.name := by
  have hround := visitAll_round f.patience (f.dropUnlisted (roster ws)).1.members (names_roster ws)
  have hfilter : ∀ p : Member → Bool,
      ((roster ws).values.filter fun w => p (seen (f.dropUnlisted (roster ws)).1.members w)) =
        (roster ws).values.filter fun w => p (seen f.members w) := by
    intro p
    refine List.filter_congr ?_
    intro w hw
    rw [seen_dropUnlisted hw]
  have hpings : (f.reconcile ws).2.pings = (visitAll f.patience (roster ws).values
      (f.dropUnlisted (roster ws)).1.members).2.pings := rfl
  have hcondemned : (f.reconcile ws).2.condemned = (visitAll f.patience (roster ws).values
      (f.dropUnlisted (roster ws)).1.members).2.condemned := rfl
  have hremoved : (f.reconcile ws).2.removed = (f.dropUnlisted (roster ws)).2 ++
      (visitAll f.patience (roster ws).values
        (f.dropUnlisted (roster ws)).1.members).2.removed := rfl
  rw [hpings, hcondemned, hremoved, hround]
  simp only [hfilter (Member.pingable f.patience), hfilter (Member.overdue f.patience),
    hfilter fun m => m.overdue f.patience && m.registered, and_self]

theorem mem_pings : v ∈ (f.reconcile ws).2.pings.map Worker.name ↔
    ∃ w, listing ws v = some w ∧ (seen f.members w).pingable f.patience = true := by
  rw [(round_reconcile f ws).1, mem_names_filter]

theorem mem_condemned : v ∈ (f.reconcile ws).2.condemned ↔
    ∃ w, listing ws v = some w ∧ (seen f.members w).overdue f.patience = true := by
  rw [(round_reconcile f ws).2.1, mem_names_filter]

/-- Registered workers are removed, those that are no longer listed and those that are condemned. -/
theorem registered_of_mem_removed (h : v ∈ (f.reconcile ws).2.removed) :
    ∃ m, f.members.find? v = some m ∧ m.registered = true := by
  rw [(round_reconcile f ws).2.2] at h
  rcases List.mem_append.1 h with h | h
  · obtain ⟨⟨v, m⟩, he, rfl⟩ := List.mem_map.1 h
    obtain ⟨he, hr⟩ := List.mem_filter.1 he
    exact ⟨m, OrderedMap.mem_entries_iff.1 (List.mem_filter.1 he).1, hr⟩
  · obtain ⟨w, hw, rfl⟩ := List.mem_map.1 h
    obtain ⟨_, hr⟩ := List.mem_filter.1 hw
    rw [Bool.and_eq_true, seen] at hr
    cases hm : f.members.find? w.name with
    | none =>
      rw [hm] at hr
      cases hr.2
    | some m =>
      rw [hm] at hr
      exact ⟨m, rfl, hr.2⟩

end Fleet
end RenderFarm
