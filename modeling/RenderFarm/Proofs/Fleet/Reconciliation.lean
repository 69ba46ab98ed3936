import RenderFarm.Proofs.Fleet.Caches

/-!
# RenderFarm.Proofs.Fleet.Reconciliation

What a round comes to as a whole: who is known after it, what it asks for, and which holders are
struck off.

* `places`, `lastEntry`: the order and the entries of a list in which names are repeated.
* `keys_reconcile`, `isAlive_reconcile`: who is known and who is alive after a round.
* `mem_removed`: a worker is removed if it was alive and is not any more.
* `caches_reconcile`: the lists of holders without those that the round strikes off.
* `Reconciled f ws f' round`: all of it together; `reconcile_exact`.
-/

namespace RenderFarm
namespace Fleet

/-- The names of the list, each where it comes first. -/
def places (ws : List Worker) : List WorkerName := (ws.map Worker.name).eraseDups

/-- Of the entries for the name the last one counts. -/
def lastEntry (ws : List Worker) (v : WorkerName) : Option Worker :=
  (ws.filter fun w => w.name = v).getLast?

variable {f : Fleet} {ws : List Worker} {v : WorkerName} {x : Worker}

/-! ## Lists with repeated names -/

theorem keys_roster (ws : List Worker) : (roster ws).keys = places ws := by
  have hempty : (OrderedMap.empty : OrderedMap WorkerName Worker).keys = [] := rfl
  have hnames : (ws.map fun w => (w.name, w)).map Prod.fst = ws.map Worker.name := by
    rw [List.map_map]
    rfl
  rw [roster, OrderedMap.ofList, OrderedMap.keys_foldl_insert, hempty, hnames, List.nil_append,
    List.filter_eq_self.2 fun v _ => by simp]
  rfl

theorem nodup_places (ws : List Worker) : (places ws).Nodup :=
  keys_roster ws ▸ (roster ws).nodup

theorem mem_places : v ∈ places ws ↔ v ∈ ws.map Worker.name := List.mem_eraseDups

theorem listing_eq (ws : List Worker) (v : WorkerName) : listing ws v = lastEntry ws v := by
  rw [listing, roster, OrderedMap.ofList, OrderedMap.find?_foldl_insert_eq]
  have hempty : (OrderedMap.empty : OrderedMap WorkerName Worker).find? v = none := rfl
  rw [hempty, Option.or_none, List.filter_map, List.getLast?_map, Option.map_map]
  simp [lastEntry, Function.comp_def]

/-- Some of the workers of the list, in its order and with the entries that count. -/
theorem filter_roster (p : Worker → Bool) :
    (((roster ws).values.filter p).map Worker.name).Sublist (places ws) ∧
    ∀ w ∈ (roster ws).values.filter p, lastEntry ws w.name = some w := by
  refine ⟨?_, fun w hw => ?_⟩
  · rw [← keys_roster, ← map_name_roster]
    exact List.filter_sublist.map _
  · rw [← listing_eq]
    exact mem_roster.1 (List.mem_filter.1 hw).1

/-! ## Who is known -/

theorem keys_visitAll (patience : Nat) (ms : OrderedMap WorkerName Member)
    (hn : (ws.map Worker.name).Nodup) :
    (visitAll patience ws ms).1.keys = ms.keys ++ (ws.map Worker.name).filter (· ∉ ms.keys) := by
  induction ws generalizing ms with
  | nil => simp [visitAll]
  | cons w ws ih =>
    rw [List.map_cons, List.nodup_cons] at hn
    rw [visitAll_cons, ih _ hn.2, List.map_cons]
    by_cases hw : w.name ∈ ms.keys
    · rw [OrderedMap.keys_insert_of_mem _ hw, List.filter_cons_of_neg (by simpa using hw)]
    · -- the name does not come again
      have hrest : ((ws.map Worker.name).filter (· ∉ ms.keys ++ [w.name])) =
          (ws.map Worker.name).filter (· ∉ ms.keys) := by
        refine List.filter_congr fun u hu => ?_
        have hne : u ≠ w.name := fun heq => hn.1 (heq ▸ hu)
        simp [hne]
      rw [OrderedMap.keys_insert_new _ hw, List.filter_cons_of_pos (by simpa using hw), hrest,
        List.append_assoc]
      rfl

theorem contains_roster (ws : List Worker) (v : WorkerName) :
    (roster ws).contains v = decide (v ∈ ws.map Worker.name) := by
  rw [Bool.eq_iff_iff, OrderedMap.contains_iff, mem_keys_roster, decide_eq_true_eq]

/-- Those that were known and are listed stay in their order, with the new ones behind them. -/
theorem keys_reconcile (f : Fleet) (ws : List Worker) :
    (f.reconcile ws).1.members.keys =
      f.members.keys.filter (· ∈ ws.map Worker.name) ++
        (places ws).filter (· ∉ f.members.keys) := by
  have hdropped : (f.dropUnlisted (roster ws)).1.members.keys =
      f.members.keys.filter (· ∈ ws.map Worker.name) := by
    simp only [dropUnlisted, purge, OrderedMap.keys, OrderedMap.filter, contains_roster,
      List.filter_map, Function.comp_def]
  have hmembers : (f.reconcile ws).1.members =
      (visitAll f.patience (roster ws).values (f.dropUnlisted (roster ws)).1.members).1 := rfl
  rw [hmembers, keys_visitAll _ _ (names_roster ws), hdropped, map_name_roster, keys_roster]
  refine congrArg (_ ++ ·) (List.filter_congr fun v hv => decide_eq_decide.2 ?_)
  rw [List.mem_filter, decide_eq_true_eq, and_iff_left (mem_places.1 hv)]

/-! ## Who is alive -/

theorem live_eq (f : Fleet) : f.live = f.members.keys.filter f.isAlive := by
  rw [live, OrderedMap.keys, List.filter_map]
  refine congrArg (List.map Prod.fst) (List.filter_congr ?_)
  rintro ⟨v, m⟩ he
  simp [isAlive, OrderedMap.mem_entries_iff.1 he]

theorem registered_seen (f : Fleet) (x : Worker) :
    (seen f.members x).registered = f.isAlive x.name := by
  unfold seen isAlive
  cases f.members.find? x.name <;> rfl

theorem registered_visit (patience : Nat) (m : Member) (x : Worker) :
    (visit patience m x).registered = (m.registered && !m.overdue patience) := by
  unfold visit Member.overdue
  cases m.liveness with
  | condemned => simp
  | waiting n => by_cases hn : patience ≤ n <;> simp [hn]

/-- To be listed is not enough to come to life. -/
theorem isAlive_reconcile : (f.reconcile ws).1.isAlive v = true ↔
    f.isAlive v = true ∧ v ∈ ws.map Worker.name ∧ v ∉ (f.reconcile ws).2.condemned := by
  have hmember := find?_reconcile f ws v
  cases hv : listing ws v with
  | none =>
    rw [hv] at hmember
    have hunlisted := listing_eq_none.1 hv
    simp only [isAlive, hmember, Option.map_none, hunlisted, false_and, and_false,
      Bool.false_eq_true]
  | some x =>
    rw [hv] at hmember
    obtain ⟨hmem, rfl⟩ := listing_eq_some hv
    have hlisted : x.name ∈ ws.map Worker.name := List.mem_map_of_mem hmem
    have hcondemned : x.name ∈ (f.reconcile ws).2.condemned ↔
        (seen f.members x).overdue f.patience = true := by
      simp only [mem_condemned, hv, Option.some.injEq, exists_eq_left']
    have hafter : (f.reconcile ws).1.isAlive x.name =
        (visit f.patience (seen f.members x) x).registered := by
      simp only [isAlive, hmember, Option.map_some]
    rw [hafter, registered_visit, registered_seen, hcondemned, Bool.and_eq_true,
      Bool.not_eq_true', Bool.not_eq_true]
    exact and_congr_right fun _ => (and_iff_right hlisted).symm

theorem mem_dropped : v ∈ (f.dropUnlisted (roster ws)).2 ↔
    f.isAlive v = true ∧ v ∉ ws.map Worker.name := by
  simp only [dropUnlisted, contains_roster, List.mem_map, List.mem_filter, isAlive_iff,
    Bool.not_eq_true', decide_eq_false_iff_not]
  constructor
  · rintro ⟨⟨v, m⟩, ⟨⟨he, hunlisted⟩, hr⟩, rfl⟩
    exact ⟨⟨m, OrderedMap.mem_entries_iff.1 he, hr⟩, by simpa using hunlisted⟩
  · rintro ⟨⟨m, hm, hr⟩, hunlisted⟩
    exact ⟨(v, m), ⟨⟨OrderedMap.mem_entries_iff.2 hm, by simpa using hunlisted⟩, hr⟩, rfl⟩

/-- A worker is removed if it was alive and is not any more. -/
theorem mem_removed : v ∈ (f.reconcile ws).2.removed ↔
    f.isAlive v = true ∧ ¬ (f.reconcile ws).1.isAlive v = true := by
  have hdue : v ∈ ((roster ws).values.filter fun w =>
      (seen f.members w).overdue f.patience && (seen f.members w).registered).map Worker.name ↔
        f.isAlive v = true ∧ v ∈ (f.reconcile ws).2.condemned := by
    rw [mem_names_filter, mem_condemned]
    constructor
    · rintro ⟨x, hx, hp⟩
      rw [Bool.and_eq_true, registered_seen, (listing_eq_some hx).2] at hp
      exact ⟨hp.2, x, hx, hp.1⟩
    · rintro ⟨halive, x, hx, hp⟩
      refine ⟨x, hx, ?_⟩
      rw [Bool.and_eq_true, registered_seen, (listing_eq_some hx).2]
      exact ⟨hp, halive⟩
  rw [(round_reconcile f ws).2.2, List.mem_append, mem_dropped, hdue, isAlive_reconcile]
  tauto

theorem nodup_removed (f : Fleet) (ws : List Worker) : (f.reconcile ws).2.removed.Nodup := by
  rw [(round_reconcile f ws).2.2]
  refine List.nodup_append.2 ⟨?_, ?_, ?_⟩
  · exact f.members.nodup.sublist ((List.filter_sublist.trans List.filter_sublist).map _)
  · exact (nodup_places ws).sublist (filter_roster _).1
  · rintro v hv w hw rfl
    have hlisted := mem_places.1 ((filter_roster _).1.subset hw)
    exact (mem_dropped.1 hv).2 hlisted

theorem live_reconcile (f : Fleet) (ws : List Worker) :
    (f.reconcile ws).1.live = f.live.filter (· ∉ (f.reconcile ws).2.removed) := by
  -- a worker that becomes known in this round is not alive yet
  have hnew : ((places ws).filter (· ∉ f.members.keys)).filter (f.reconcile ws).1.isAlive = [] := by
    refine List.filter_eq_nil_iff.2 fun v hv halive => ?_
    obtain ⟨m, hm, _⟩ := isAlive_iff.1 (isAlive_reconcile.1 halive).1
    have hunknown : v ∉ f.members.keys := by simpa using (List.mem_filter.1 hv).2
    exact hunknown (OrderedMap.mem_keys_iff.2 ⟨m, hm⟩)
  rw [live_eq, live_eq, keys_reconcile, List.filter_append, hnew, List.append_nil,
    List.filter_filter, List.filter_filter]
  refine List.filter_congr fun v _ => ?_
  rw [Bool.eq_iff_iff]
  simp only [Bool.and_eq_true, decide_eq_true_eq, mem_removed, isAlive_reconcile]
  tauto

/-! ## Holders -/

/-- The round strikes the worker off: it was known and is not listed, or it is condemned now. -/
def struck (f : Fleet) (ws : List Worker) (v : WorkerName) : Prop :=
  (v ∈ f.members.keys ∧ v ∉ ws.map Worker.name) ∨ v ∈ (f.reconcile ws).2.condemned

instance (f : Fleet) (ws : List Worker) (v : WorkerName) : Decidable (struck f ws v) :=
  inferInstanceAs (Decidable (_ ∨ _))

theorem caches_reconcile (f : Fleet) (ws : List Worker) :
    (f.reconcile ws).1.caches =
      f.caches.mapValues fun _ holders => holders.filter fun v => ¬ struck f ws v := by
  have hgone : ∀ v, v ∈ (f.members.entries.filter fun e => !(roster ws).contains e.1).map Prod.fst ↔
      v ∈ f.members.keys ∧ v ∉ ws.map Worker.name := by
    intro v
    simp only [contains_roster, List.mem_map, List.mem_filter, Prod.exists, exists_eq_right,
      OrderedMap.keys, exists_and_right]
    simp
  have hcaches : (f.reconcile ws).1.caches =
      (f.caches.mapValues fun _ holders => holders.filter fun v =>
        v ∉ (f.members.entries.filter fun e => !(roster ws).contains e.1).map Prod.fst).mapValues
          fun _ holders => holders.filter fun v => v ∉ (f.reconcile ws).2.condemned := rfl
  rw [hcaches]
  simp only [OrderedMap.mapValues, List.map_map, Function.comp_def, List.filter_filter, hgone,
    struck, not_or, Bool.decide_and, Bool.and_comm]

/-! ## Rounds -/

/-- A worker that is condemned is left alone. -/
theorem seen_of_condemned (h : Condemned f x.name) (patience : Nat) :
    (seen f.members x).pingable patience = false ∧ (seen f.members x).overdue patience = false := by
  simp only [Member.pingable, Member.overdue, h.seen.2, and_self]

theorem mem_condemned_iff :
    v ∈ (f.reconcile ws).2.condemned ↔ ¬ Condemned f v ∧ Condemned (f.reconcile ws).1 v := by
  rw [mem_condemned]
  constructor
  · rintro ⟨x, hx, hdue⟩
    refine ⟨fun hc => ?_, (condemned_reconcile hx).2 (.inr hdue)⟩
    obtain rfl := (listing_eq_some hx).2
    rw [(seen_of_condemned hc f.patience).2] at hdue
    cases hdue
  · rintro ⟨hfree, hcondemned⟩
    cases hx : listing ws v with
    | none => simp [Condemned, find?_reconcile, hx] at hcondemned
    | some x => exact ⟨x, rfl, ((condemned_reconcile hx).1 hcondemned).resolve_left hfree⟩

/-- A listed worker that is not condemned has a ping to come, or has had too many. -/
theorem pinged_or_condemned (h : ¬ Condemned f v) (hv : v ∈ ws.map Worker.name) :
    v ∈ (f.reconcile ws).2.pings.map Worker.name ↔ v ∉ (f.reconcile ws).2.condemned := by
  obtain ⟨x, hx⟩ := listing_of_mem hv
  obtain rfl := (listing_eq_some hx).2
  obtain ⟨n, hn⟩ := waiting_seen h
  simp only [mem_pings, mem_condemned, hx, Option.some.injEq, exists_eq_left', Member.pingable,
    Member.overdue, hn, decide_eq_true_eq]
  exact Nat.not_le.symm

theorem pinged_reconcile (hx : x ∈ (f.reconcile ws).2.pings) :
    lastEntry ws x.name = some x ∧ (f.reconcile ws).1.worker? x.name = some x := by
  rw [(round_reconcile f ws).1] at hx
  have hentry := (filter_roster _).2 x hx
  refine ⟨hentry, ?_⟩
  have hp := (List.mem_filter.1 hx).2
  rw [worker?, find?_reconcile, listing_eq, hentry, Option.map_some, Option.map_some]
  unfold visit
  cases hl : (seen f.members x).liveness with
  | condemned => simp [Member.pingable, hl] at hp
  | waiting n =>
    have hlt : n < f.patience := by simpa [Member.pingable, hl] using hp
    simp only [if_neg (Nat.not_le.2 hlt)]

/-- What the fleet `f` has become in a round that lists `ws`, and what the round asks for. -/
structure Reconciled (f : Fleet) (ws : List Worker) (f' : Fleet) (round : Round) : Prop where
  /-- The known workers are the listed ones. -/
  known : ∀ v, v ∈ f'.members.keys ↔ v ∈ ws.map Worker.name
  /-- Pings go out in the order of the list, one for a name, to the entry that counts. -/
  inOrder : (round.pings.map Worker.name).Sublist (places ws) ∧ (places ws).Nodup
  pinged : ∀ w ∈ round.pings, lastEntry ws w.name = some w ∧ f'.worker? w.name = some w
  /-- A listed worker is pinged, or condemned now, or was condemned before, and only one of them. -/
  cases : ∀ v ∈ ws.map Worker.name,
    (v ∈ round.pings.map Worker.name ∧ v ∉ round.condemned ∧ ¬ Condemned f v) ∨
    (v ∉ round.pings.map Worker.name ∧ v ∈ round.condemned ∧ ¬ Condemned f v) ∨
    (v ∉ round.pings.map Worker.name ∧ v ∉ round.condemned ∧ Condemned f v)
  condemned : round.condemned.Nodup ∧
    ∀ v, v ∈ round.condemned ↔ ¬ Condemned f v ∧ Condemned f' v
  removed : round.removed.Nodup ∧ ∀ v, v ∈ round.removed ↔ v ∈ f.live ∧ v ∉ f'.live
  /-- Nobody comes to life. -/
  live : f'.live = f.live.filter (· ∉ round.removed)
  /-- Whoever leaves or is condemned holds nothing any more. -/
  purged : ∀ v, (v ∈ f.members.keys ∧ v ∉ ws.map Worker.name) ∨ v ∈ round.condemned →
    ∀ s, ¬ Holds f' v s
  /-- The others hold what they held, and keep their turns. -/
  caches : f'.caches = f.caches.mapValues fun _ holders => holders.filter fun v =>
    ¬ ((v ∈ f.members.keys ∧ v ∉ ws.map Worker.name) ∨ v ∈ round.condemned)

theorem purged_reconcile (hv : struck f ws v) (s : SessionName) :
    ¬ Holds (f.reconcile ws).1 v s := by
  rintro ⟨holders, hs, hmem⟩
  rw [caches_reconcile, OrderedMap.find?_mapValues] at hs
  obtain ⟨before, _, rfl⟩ := Option.map_eq_some_iff.1 hs
  simpa [hv] using (List.mem_filter.1 hmem).2

/-- Whatever state the fleet is in and whatever the cluster lists, a round does this and no more. -/
theorem reconcile_exact (f : Fleet) (ws : List Worker) :
    Reconciled f ws (f.reconcile ws).1 (f.reconcile ws).2 where
  known v := not_iff_not.1 (OrderedMap.find?_eq_none_iff.symm.trans known_reconcile)
  inOrder := ⟨(round_reconcile f ws).1 ▸ (filter_roster _).1, nodup_places ws⟩
  pinged _ hw := pinged_reconcile hw
  cases v hv := by
    by_cases hc : Condemned f v
    · have hpings : v ∉ (f.reconcile ws).2.pings.map Worker.name := by
        rw [mem_pings]
        rintro ⟨x, hx, hp⟩
        obtain rfl := (listing_eq_some hx).2
        rw [(seen_of_condemned hc f.patience).1] at hp
        cases hp
      exact .inr (.inr ⟨hpings, fun hmem => (mem_condemned_iff.1 hmem).1 hc, hc⟩)
    · have hiff := pinged_or_condemned hc hv
      by_cases hmem : v ∈ (f.reconcile ws).2.condemned
      · exact .inr (.inl ⟨fun hping => hiff.1 hping hmem, hmem, hc⟩)
      · exact .inl ⟨hiff.2 hmem, hmem, hc⟩
  condemned := by
    refine ⟨?_, fun v => mem_condemned_iff⟩
    rw [(round_reconcile f ws).2.1]
    exact (nodup_places ws).sublist (filter_roster _).1
  removed := by
    refine ⟨nodup_removed f ws, fun v => ?_⟩
    rw [mem_live, mem_live, mem_removed]
  live := live_reconcile f ws
  purged _ hv s := purged_reconcile hv s
  caches := caches_reconcile f ws

/-- One worker is listed twice, one has left, one has not answered, and one is new. -/
example :
    let w (name host : String) : Worker := ⟨⟨name⟩, host, 1, 2⟩
    let f := after 1 [.pong ⟨"c"⟩ [⟨"s"⟩], .pong ⟨"a"⟩ [⟨"s"⟩],
      .reconcile [w "a" "h", w "b" "h", w "c" "h"], .track ⟨"s"⟩]
    let (f', round) := f.reconcile [w "d" "h", w "a" "h", w "b" "h", w "a" "h2"]
    f.live = [⟨"a"⟩, ⟨"c"⟩] ∧ round = ⟨[w "d" "h", w "a" "h2"], [⟨"b"⟩], [⟨"c"⟩]⟩ ∧
    f'.live = [⟨"a"⟩] ∧ f'.caches.entries = [(⟨"s"⟩, [⟨"a"⟩])] := by
  decide +kernel

end Fleet
end RenderFarm
