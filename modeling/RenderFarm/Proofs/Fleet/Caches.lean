import RenderFarm.Proofs.Fleet.Condemnation

/-!
# RenderFarm.Proofs.Fleet.Caches

Who counts as a holder of the resources of a session, and how it came to be one.

* `Holds f w s`: the worker is in the list of the session.
* `Welcome f w`: the worker is known and not condemned.
* `op.notes w s`: the operation takes somebody's word for it that the worker holds the resources. A
  pong does not, for the fleet knows whom it has pinged.
* `unwelcome_holder`: a worker that is not welcome is a holder only because it was one when it was
  not welcome before, or because an operation has noted it while it was not welcome.
* `keys_perform`: which sessions are tracked changes only by `track` and `untrack`.
-/

namespace RenderFarm
namespace Fleet

def Holds (f : Fleet) (w : WorkerName) (s : SessionName) : Prop :=
  ∃ holders, f.caches.find? s = some holders ∧ w ∈ holders

def Welcome (f : Fleet) (w : WorkerName) : Prop :=
  f.members.find? w ≠ none ∧ ¬ Condemned f w

def Operation.notes (w : WorkerName) (s : SessionName) : Operation → Prop
  | .updateCaches v ss => v = w ∧ s ∈ ss
  | .markCached v s' => v = w ∧ s' = s
  | _ => False

variable {f : Fleet} {v w : WorkerName} {s s' : SessionName} {ss : List SessionName}
  {ws : List Worker} {op : Operation}

/-! ## Welcome workers -/

theorem isAlive_welcome (h : Orderly f.members) (hw : f.isAlive w = true) : Welcome f w := by
  obtain ⟨m, hm, hr⟩ := isAlive_iff.1 hw
  have hl := (h w m hm).alive hr
  simpa [Welcome, Condemned, hm] using hl

theorem known_perform (hop : ∀ ws, op ≠ .reconcile ws) :
    (f.perform op).members.find? w = none ↔ f.members.find? w = none := by
  cases op with
  | reconcile ws => exact absurd rfl (hop ws)
  | pong v ss => simp [perform, find?_pong]
  | evict v =>
    have h := find?_evict f v w
    simp only [perform]
    rw [← Option.map_eq_none_iff, h, Option.map_eq_none_iff]
  | track s | untrack s => rfl
  | updateCaches v ss => simp [perform]
  | markCached v s => simp [perform]
  | takeCached s => simp [perform]

theorem condemned_calm (hop : ∀ ws, op ≠ .reconcile ws) :
    Condemned (f.perform op) w ↔ Condemned f w := by
  have hl : ¬ op.lists w := by
    intro h
    cases op with
    | reconcile ws => exact hop ws rfl
    | _ => exact h
  have hd : ¬ op.delists w := by
    intro h
    cases op with
    | reconcile ws => exact hop ws rfl
    | _ => exact h
  exact condemned_perform hl hd

/-- Only a round makes a worker known, or unknown, or condemned. -/
theorem welcome_perform (hop : ∀ ws, op ≠ .reconcile ws) :
    Welcome (f.perform op) w ↔ Welcome f w := by
  rw [Welcome, Welcome, condemned_calm hop, ne_eq, ne_eq, known_perform hop]

/-! ## The lists of holders -/

theorem holds_purge {names : List WorkerName} :
    Holds (f.purge names) w s ↔ Holds f w s ∧ w ∉ names := by
  simp only [Holds, purge, OrderedMap.find?_mapValues, Option.map_eq_some_iff]
  constructor
  · rintro ⟨_, ⟨holders, hs, rfl⟩, hw⟩
    obtain ⟨hw, hn⟩ := List.mem_filter.1 hw
    exact ⟨⟨holders, hs, hw⟩, of_decide_eq_true hn⟩
  · rintro ⟨⟨holders, hs, hw⟩, hn⟩
    exact ⟨_, ⟨holders, hs, rfl⟩, List.mem_filter.2 ⟨hw, decide_eq_true hn⟩⟩

theorem holds_updateCaches (h : Holds (f.updateCaches v ss) w s) :
    Holds f w s ∨ v = w ∧ s ∈ ss := by
  obtain ⟨_, hmap, hw⟩ := h
  rw [find?_updateCaches] at hmap
  obtain ⟨holders, hs, rfl⟩ := Option.map_eq_some_iff.1 hmap
  split at hw
  · rename_i hmem
    rcases (mem_addHolder v holders).1 hw with rfl | hw
    · exact .inr ⟨rfl, hmem⟩
    · exact .inl ⟨holders, hs, hw⟩
  · exact .inl ⟨holders, hs, List.mem_of_mem_erase hw⟩

/-- The worker's word is taken for it. -/
theorem holds_of_updateCaches (hs : s ∈ f.caches.keys) (hw : s ∈ ss) :
    Holds (f.updateCaches w ss) w s := by
  obtain ⟨holders, hs⟩ := OrderedMap.mem_keys_iff.1 hs
  refine ⟨addHolder w holders, ?_, (mem_addHolder w holders).2 (.inl rfl)⟩
  rw [find?_updateCaches, hs, Option.map_some, if_pos hw]

theorem holds_markCached (h : Holds (f.markCached v s') w s) :
    Holds f w s ∨ v = w ∧ s' = s := by
  unfold markCached at h
  split at h
  · rename_i holders hs
    obtain ⟨holders', hs', hw⟩ := h
    rw [OrderedMap.find?_insert] at hs'
    split at hs'
    · rename_i heq
      cases hs'
      subst heq
      rcases (mem_addHolder v holders).1 hw with rfl | hw
      · exact .inr ⟨rfl, rfl⟩
      · exact .inl ⟨holders, hs, hw⟩
    · exact .inl ⟨holders', hs', hw⟩
  · exact .inl h

theorem Holds.markCached (h : Holds f w s) : Holds (f.markCached v s') w s := by
  unfold Fleet.markCached
  split
  · rename_i holders hs
    obtain ⟨holders', hs', hw⟩ := h
    simp only [Holds, OrderedMap.find?_insert]
    split
    · rename_i heq
      subst heq
      cases hs.symm.trans hs'
      exact ⟨_, rfl, (mem_addHolder v holders).2 (.inr hw)⟩
    · exact ⟨holders', hs', hw⟩
  · exact h

/-- To be used next or last makes no difference to who holds the resources. -/
theorem holds_takeCached : Holds (f.takeCached s').2 w s ↔ Holds f w s := by
  unfold takeCached
  split
  · rfl
  · rename_i holders hs
    split
    · rfl
    · rename_i v hv
      have hperm : (holders.erase v ++ [v]).Perm holders :=
        (List.perm_append_singleton v _).trans
          (List.perm_cons_erase (List.mem_of_find?_eq_some hv)).symm
      simp only [Holds, OrderedMap.find?_insert]
      by_cases heq : s' = s
      · subst heq
        simp only [if_true, Option.some.injEq, exists_eq_left', hs, hperm.mem_iff]
      · simp only [if_neg heq]

theorem holds_track (h : Holds (f.track s') w s) : Holds f w s := by
  obtain ⟨holders, hs, hw⟩ := h
  simp only [track, OrderedMap.insertNew] at hs
  split at hs
  · exact ⟨holders, hs, hw⟩
  · rw [OrderedMap.find?_insert] at hs
    split at hs
    · cases hs
      cases hw
    · exact ⟨holders, hs, hw⟩

theorem holds_untrack (h : Holds (f.untrack s').1 w s) : Holds f w s := by
  obtain ⟨holders, hs, hw⟩ := h
  exact ⟨holders, OrderedMap.find?_of_erase hs, hw⟩

theorem caches_evict (f : Fleet) (v : WorkerName) : (f.evict v).1.caches = f.caches := by
  unfold evict
  split
  · rfl
  · split <;> rfl

/-- The fleet believes only those that it has pinged. -/
theorem holds_pong (h : Holds (f.pong v ss).1 w s) :
    Holds f w s ∨ v = w ∧ s ∈ ss ∧ Welcome f v := by
  unfold pong at h
  split at h
  · exact .inl h
  · rename_i m hm
    split at h
    · exact .inl h
    · rename_i n hn
      have hwelcome : Welcome f v := by simp [Welcome, Condemned, hm, hn]
      rcases holds_updateCaches h with hw | ⟨hv, hmem⟩
      · exact .inl hw
      · exact .inr ⟨hv, hmem, hwelcome⟩

/-! ## Rounds -/

/-- A round strikes off the lists whoever leaves in it, and whoever it condemns. -/
theorem holds_reconcile (h : Holds (f.reconcile ws).1 w s) :
    Holds f w s ∧ (f.members.find? w ≠ none → w ∈ ws.map Worker.name) ∧
      w ∉ (f.reconcile ws).2.condemned := by
  obtain ⟨h, hcondemned⟩ := holds_purge.1 h
  have hgone : Holds f w s ∧
      w ∉ (f.members.entries.filter fun e => !(roster ws).contains e.1).map Prod.fst :=
    holds_purge.1 h
  refine ⟨hgone.1, fun hknown => ?_, hcondemned⟩
  obtain ⟨m, hm⟩ := Option.ne_none_iff_exists'.1 hknown
  by_contra hlisted
  refine hgone.2 (List.mem_map.2 ⟨(w, m), List.mem_filter.2 ⟨?_, ?_⟩, rfl⟩)
  · exact OrderedMap.mem_entries_iff.2 hm
  · rw [Bool.not_eq_true', ← Bool.not_eq_true, OrderedMap.contains_iff]
    exact fun hmem => hlisted (mem_keys_roster.1 hmem)

theorem known_reconcile : (f.reconcile ws).1.members.find? w = none ↔ w ∉ ws.map Worker.name := by
  rw [find?_reconcile, Option.map_eq_none_iff, listing_eq_none]

/-! ## One operation -/

/-- Who is forgotten or condemned holds nothing any more. -/
theorem purged_perform
    (hw : f.members.find? w ≠ none ∧ (f.perform op).members.find? w = none ∨
      ¬ Condemned f w ∧ Condemned (f.perform op) w) : ¬ Holds (f.perform op) w s := by
  intro h
  have hround : ∃ ws, op = .reconcile ws := by
    by_contra hround
    have hop : ∀ ws, op ≠ .reconcile ws := fun ws heq => hround ⟨ws, heq⟩
    rcases hw with ⟨hknown, hnone⟩ | ⟨hfree, hcondemned⟩
    · exact hknown ((known_perform hop).1 hnone)
    · exact hfree ((condemned_calm hop).1 hcondemned)
  obtain ⟨ws, rfl⟩ := hround
  obtain ⟨_, hlisted, hspared⟩ := holds_reconcile h
  rcases hw with ⟨hknown, hnone⟩ | ⟨hfree, hcondemned⟩
  · exact known_reconcile.1 hnone (hlisted hknown)
  · have hknown : ¬ (f.reconcile ws).1.members.find? w = none := by
      intro hnone
      simp [Condemned, perform, hnone] at hcondemned
    rw [known_reconcile, not_not] at hknown
    obtain ⟨x, hx⟩ := listing_of_mem hknown
    rcases (condemned_reconcile hx).1 hcondemned with hbefore | hdue
    · exact hfree hbefore
    · exact hspared (mem_condemned.2 ⟨x, hx, hdue⟩)

theorem unwelcome_holder (h : Holds (f.perform op) w s) (hw : ¬ Welcome (f.perform op) w) :
    ¬ Welcome f w ∧ (Holds f w s ∨ op.notes w s) := by
  have hunwelcome : ¬ Welcome f w := by
    rintro ⟨hknown, hfree⟩
    refine hw ⟨fun hnone => ?_, fun hcondemned => ?_⟩
    · exact purged_perform (.inl ⟨hknown, hnone⟩) h
    · exact purged_perform (.inr ⟨hfree, hcondemned⟩) h
  refine ⟨hunwelcome, ?_⟩
  cases op with
  | reconcile ws => exact .inl (holds_reconcile h).1
  | pong v ss =>
    rcases holds_pong h with hold | ⟨rfl, _, hwelcome⟩
    · exact .inl hold
    · exact absurd hwelcome hunwelcome
  | evict v => exact .inl (by simpa [Holds, perform, caches_evict] using h)
  | track s' => exact .inl (holds_track h)
  | untrack s' => exact .inl (holds_untrack h)
  | updateCaches v ss => exact holds_updateCaches h
  | markCached v s' => exact holds_markCached h
  | takeCached s' => exact .inl (holds_takeCached.1 h)

/-! ## Tracked sessions -/

theorem keys_markCached (f : Fleet) (w : WorkerName) (s : SessionName) :
    (f.markCached w s).caches.keys = f.caches.keys := by
  unfold markCached
  split
  · rename_i holders hs
    exact OrderedMap.keys_insert_of_mem _ (OrderedMap.mem_keys_iff.2 ⟨holders, hs⟩)
  · rfl

theorem keys_takeCached (f : Fleet) (s : SessionName) :
    (f.takeCached s).2.caches.keys = f.caches.keys := by
  unfold takeCached
  split
  · rfl
  · rename_i holders hs
    split
    · rfl
    · exact OrderedMap.keys_insert_of_mem _ (OrderedMap.mem_keys_iff.2 ⟨holders, hs⟩)

theorem keys_pong (f : Fleet) (w : WorkerName) (ss : List SessionName) :
    (f.pong w ss).1.caches.keys = f.caches.keys := by
  unfold pong
  split
  · rfl
  · split
    · rfl
    · exact OrderedMap.keys_mapValues _ _

/-- A session is tracked because it is to be, and until it is not to be. -/
theorem keys_perform (ht : ∀ s, op ≠ .track s) (hu : ∀ s, op ≠ .untrack s) :
    (f.perform op).caches.keys = f.caches.keys := by
  cases op with
  | track s => exact absurd rfl (ht s)
  | untrack s => exact absurd rfl (hu s)
  | reconcile ws => simp [perform, reconcile, dropUnlisted, purge]
  | pong v ss => exact keys_pong f v ss
  | evict v => exact congrArg OrderedMap.keys (caches_evict f v)
  | updateCaches v ss => exact OrderedMap.keys_mapValues _ _
  | markCached v s => exact keys_markCached f v s
  | takeCached s => exact keys_takeCached f s

theorem tracked_track : s ∈ (f.track s').caches.keys ↔ s = s' ∨ s ∈ f.caches.keys := by
  simp only [track, OrderedMap.insertNew]
  split
  · rename_i h
    exact ⟨.inr, fun hs => hs.elim (fun heq => heq ▸ OrderedMap.contains_iff.1 h) id⟩
  · exact OrderedMap.mem_keys_insert

/-- A session is tracked from the operation that says so. -/
theorem tracked_perform (h : s ∈ (f.perform op).caches.keys) :
    s ∈ f.caches.keys ∨ op = .track s := by
  cases op with
  | track s' =>
    rcases tracked_track.1 h with rfl | h
    · exact .inr rfl
    · exact .inl h
  | untrack s' => exact .inl (OrderedMap.mem_keys_erase.1 h).2
  | _ =>
    rw [keys_perform (by simp) (by simp)] at h
    exact .inl h

/-! ## Operations in a row -/

section Foldl

variable {ops : List Operation}

theorem keys_foldl (ht : ∀ s, .track s ∉ ops) (hu : ∀ s, .untrack s ∉ ops) :
    (ops.foldl perform f).caches.keys = f.caches.keys := by
  induction ops generalizing f with
  | nil => rfl
  | cons op ops ih =>
    have hrest := ih (f := f.perform op) (fun s hs => ht s (List.mem_cons_of_mem _ hs))
      fun s hs => hu s (List.mem_cons_of_mem _ hs)
    refine hrest.trans (keys_perform ?_ ?_)
    · rintro s rfl
      exact ht s List.mem_cons_self
    · rintro s rfl
      exact hu s List.mem_cons_self

theorem tracked_foldl (h : s ∈ (ops.foldl perform f).caches.keys) :
    s ∈ f.caches.keys ∨ .track s ∈ ops := by
  induction ops generalizing f with
  | nil => exact .inl h
  | cons op ops ih =>
    rcases ih h with h | h
    · rcases tracked_perform h with h | rfl
      · exact .inl h
      · exact .inr List.mem_cons_self
    · exact .inr (List.mem_cons_of_mem _ h)

/-- Without a round nobody becomes known, or unknown, or condemned. -/
theorem members_foldl (hops : ∀ op ∈ ops, ∀ ws, op ≠ .reconcile ws) :
    ((ops.foldl perform f).members.find? w = none ↔ f.members.find? w = none) ∧
    (Condemned (ops.foldl perform f) w ↔ Condemned f w) := by
  induction ops generalizing f with
  | nil => exact ⟨Iff.rfl, Iff.rfl⟩
  | cons op ops ih =>
    have hop := hops op List.mem_cons_self
    have hrest := ih (f := f.perform op) fun op' hop' => hops op' (List.mem_cons_of_mem _ hop')
    exact ⟨hrest.1.trans (known_perform hop), hrest.2.trans (condemned_calm hop)⟩

theorem welcome_foldl (hops : ∀ op ∈ ops, ∀ ws, op ≠ .reconcile ws) :
    Welcome (ops.foldl perform f) w ↔ Welcome f w := by
  obtain ⟨hknown, hcondemned⟩ := members_foldl (f := f) (w := w) hops
  rw [Welcome, Welcome, hcondemned, ne_eq, ne_eq, hknown]

theorem holders_foldl (hops : ∀ op ∈ ops, ∀ ws, op ≠ .reconcile ws)
    (h : Holds (ops.foldl perform f) w s) (hw : ¬ Welcome f w) :
    Holds f w s ∨ ∃ op ∈ ops, op.notes w s := by
  induction ops generalizing f with
  | nil => exact .inl h
  | cons op ops ih =>
    have hop := hops op List.mem_cons_self
    have hunwelcome : ¬ Welcome (f.perform op) w := by
      rwa [welcome_perform hop]
    rcases ih (fun op' hop' => hops op' (List.mem_cons_of_mem _ hop')) h hunwelcome with
      hold | ⟨op', hop', hnotes⟩
    · refine (unwelcome_holder hold hunwelcome).2.imp_right fun hnotes => ?_
      exact ⟨op, List.mem_cons_self, hnotes⟩
    · exact .inr ⟨op', List.mem_cons_of_mem _ hop', hnotes⟩

end Foldl

end Fleet
end RenderFarm
