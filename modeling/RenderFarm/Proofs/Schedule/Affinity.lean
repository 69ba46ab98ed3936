import RenderFarm.Proofs.Fleet.Turns
import RenderFarm.Proofs.Schedule.Lines

/-!
# RenderFarm.Proofs.Schedule.Affinity

From which workers the tasks of a dispatch pass take their resources.

* `Task.fetches session t`: the task would fetch the resources of the session from afar. Only such a
  task asks for a worker that holds them; `withAffinity_fetching`, `withAffinity_near`.
* `drawn session ts as`: the assignments of these tasks.
* `source_drawn`: they are given to the live holders in turn. `find?_fleet_dispatchAll`: and they
  alone move the list of the session.
* `Placed s f now`: the sources of a pass; `affinity_in_turn`.
-/

namespace RenderFarm

/-- Where a producing task obtains its resources. -/
def Task.source? (t : Task) : Option ResourceSource :=
  match t.work with
  | .produce _ source => some source
  | .reduce _ => none

def Task.fetches (session : SessionName) (t : Task) : Bool :=
  t.session = session && t.source? = some .external

/-- From the worker whose turn it is, or from afar if it is nobody's. -/
def ResourceSource.ofTurn : Option WorkerName → ResourceSource
  | some w => .cached w
  | none => .external

theorem ResourceSource.ofTurn_injective : Function.Injective ofTurn := by
  intro o o' h
  cases o <;> cases o' <;> simp_all [ofTurn]

namespace Fleet

variable {f f' : Fleet} {session : SessionName}

/-! ## Lists of other sessions -/

theorem readyFor_congr (hm : f'.members = f.members)
    (hs : f'.caches.find? session = f.caches.find? session) :
    f'.readyFor session = f.readyFor session := by
  have h : Turned session 0 f f' := .same hm hs
  rw [h.ready, List.rotate_zero]

/-- What becomes of a list depends on nothing but the list and on who is alive. -/
theorem find?_takeCached_congr (hm : f'.members = f.members)
    (hs : f'.caches.find? session = f.caches.find? session) :
    (f'.takeCached session).2.caches.find? session =
      (f.takeCached session).2.caches.find? session := by
  have hready := readyFor_congr hm hs
  cases h : f.readyFor session with
  | nil => rw [takeCached_none h, takeCached_none (hready.trans h), hs]
  | cons w ws =>
    rw [takeCached_some h, takeCached_some (hready.trans h)]
    simp only [OrderedMap.find?_insert, if_true, holdersOf, hs]

theorem find?_takes_congr (hm : f'.members = f.members)
    (hs : f'.caches.find? session = f.caches.find? session) (m : Nat) :
    (f'.takes session m).2.caches.find? session =
      (f.takes session m).2.caches.find? session := by
  induction m generalizing f f' with
  | zero => exact hs
  | succ m ih =>
    have hmembers : (f'.takeCached session).2.members = (f.takeCached session).2.members := by
      rw [members_takeCached, members_takeCached, hm]
    exact ih hmembers (find?_takeCached_congr hm hs)

end Fleet

namespace Schedule

open Fleet (turn Turned InTurn)

variable {s : Schedule} {f : Fleet} {t : Task} {ts : List Task} {session : SessionName} {now : Nat}

/-! ## One task -/

theorem fetches_iff :
    t.fetches session = true ↔ t.session = session ∧ t.source? = some .external := by
  simp [Task.fetches]

theorem withAffinity_fetching (h : t.source? = some .external) (f : Fleet) :
    (withAffinity t f).1.source? = some (.ofTurn (f.takeCached t.session).1) ∧
    (withAffinity t f).2 = (f.takeCached t.session).2 := by
  have hwork : ∃ seed, t.work = .produce seed .external := by
    unfold Task.source? at h
    split at h
    · rename_i seed source hw
      cases h
      exact ⟨seed, hw⟩
    · cases h
  obtain ⟨seed, hwork⟩ := hwork
  rcases htake : f.takeCached t.session with ⟨_ | w, f'⟩
  · simp [withAffinity, hwork, htake, h, ResourceSource.ofTurn]
  · simp [withAffinity, hwork, htake, Task.source?, ResourceSource.ofTurn]

/-- A merge, a task without resources and a task whose source is settled ask for nobody. -/
theorem withAffinity_near (h : t.source? ≠ some .external) (f : Fleet) :
    withAffinity t f = (t, f) := by
  unfold withAffinity
  split
  · rename_i seed hwork
    simp [Task.source?, hwork] at h
  · rfl

/-- The list of the session is left alone by all tasks but those that ask for one of its holders. -/
theorem find?_withAffinity (h : t.fetches session = false) (f : Fleet) :
    (withAffinity t f).2.caches.find? session = f.caches.find? session := by
  by_cases hfar : t.source? = some .external
  · have hne : session ≠ t.session := by
      rintro rfl
      simp [Task.fetches, hfar] at h
    rw [(withAffinity_fetching hfar f).2, Fleet.find?_takeCached_of_ne f hne]
  · rw [withAffinity_near hfar f]

/-! ## A pass -/

/-- The assignments of the tasks that would fetch the resources of the session from afar. -/
def drawn (session : SessionName) (ts : List Task) (as : List Assignment) : List Assignment :=
  ((ts.zip as).filter fun e => e.1.fetches session).map Prod.snd

theorem drawn_cons (session : SessionName) (t : Task) (ts : List Task) (a : Assignment)
    (as : List Assignment) : drawn session (t :: ts) (a :: as) =
      if t.fetches session then a :: drawn session ts as else drawn session ts as := by
  simp only [drawn, List.zip_cons_cons, List.filter_cons]
  split <;> rfl

/-- The assignment that is made next, and those after it. -/
theorem deal_cons (now : Nat) (t : Task) (ts : List Task) (s : Schedule) (f : Fleet) :
    deal now (t :: ts) s f = [] ∨ ∃ a s', a.task = (withAffinity t f).1 ∧
      deal now (t :: ts) s f = a :: deal now ts s' (withAffinity t f).2 := by
  cases hidle : s.idle with
  | nil => exact .inl (by simp only [deal, hidle])
  | cons w ws =>
    cases hticket : s.tickets.next? with
    | none => exact .inl (by simp only [deal, hidle, hticket])
    | some ticket =>
      refine .inr ⟨_, _, ?_, by simp only [deal, hidle, hticket]; rfl⟩
      rfl

theorem drawn_nil (session : SessionName) (ts : List Task) : drawn session ts [] = [] := by
  simp [drawn]

/-- By induction on the waiting tasks; each that asks for a holder moves the next one up. -/
theorem source_drawn (now : Nat) (session : SessionName) (ts : List Task) (s : Schedule)
    (f : Fleet) :
    (drawn session ts (deal now ts s f)).map (fun a => a.task.source?) =
      (List.range (drawn session ts (deal now ts s f)).length).map fun j =>
        some (.ofTurn (turn (f.readyFor session) j)) := by
  induction ts generalizing s f with
  | nil => rfl
  | cons t ts ih =>
    rcases deal_cons now t ts s f with hnone | ⟨a, s', htask, hdeal⟩
    · rw [hnone, drawn_nil]
      rfl
    · rw [hdeal, drawn_cons]
      cases hfetches : t.fetches session with
      | false =>
        have hready := Fleet.readyFor_congr (members_withAffinity t f)
          (find?_withAffinity hfetches f)
        have hrest := ih s' (withAffinity t f).2
        rw [hready] at hrest
        exact hrest
      | true =>
        obtain ⟨rfl, hfar⟩ := fetches_iff.1 hfetches
        obtain ⟨hsource, hfleet⟩ := withAffinity_fetching hfar f
        have hrest := ih s' (withAffinity t f).2
        rw [hfleet, (Fleet.turned_takeCached f t.session).ready] at hrest
        simp only [Fleet.turn_rotate] at hrest
        rw [if_pos rfl, hfleet, List.map_cons, hrest, htask, hsource, Fleet.fst_takeCached,
          ← Fleet.turn_zero, List.length_cons, List.range_succ_eq_map, List.map_cons,
          List.map_map]
        rfl

/-- Whoever does not fetch from afar is given away as it is. -/
theorem near_deal (now : Nat) (ts : List Task) (s : Schedule) (f : Fleet) :
    ∀ e ∈ ts.zip (deal now ts s f), e.1.source? ≠ some .external → e.2.task = e.1 := by
  induction ts generalizing s f with
  | nil => simp
  | cons t ts ih =>
    rcases deal_cons now t ts s f with hnone | ⟨a, s', htask, hdeal⟩
    · simp [hnone]
    · rw [hdeal, List.zip_cons_cons]
      intro e he hnear
      rcases List.mem_cons.1 he with rfl | he
      · rw [htask, withAffinity_near hnear]
      · exact ih s' _ e he hnear

theorem pending_dispatchAll_le (now : Nat) (ts : List Task) (s : Schedule) (f : Fleet) :
    (dispatchAll now ts s f).schedule.pending.length ≤ ts.length := by
  have h := (served_dispatchAll now ts s f).pending.1
  rw [h, List.length_drop]
  omega

/-- The tasks that were taken from the front of the queue, of which `left` are left. -/
def takenFrom (ts left : List Task) : List Task := ts.take (ts.length - left.length)

theorem takenFrom_self (ts : List Task) : takenFrom ts ts = [] := by
  rw [takenFrom, Nat.sub_self, List.take_zero]

theorem takenFrom_cons {left : List Task} (h : left.length ≤ ts.length) (t : Task) :
    takenFrom (t :: ts) left = t :: takenFrom ts left := by
  rw [takenFrom, List.length_cons, Nat.succ_sub h, List.take_succ_cons, takenFrom]

/-- The list of a session moves by a turn for each task taken that asks for one of its holders. -/
theorem find?_fleet_dispatchAll (now : Nat) (session : SessionName) (ts : List Task)
    (s : Schedule) (f : Fleet) :
    (dispatchAll now ts s f).fleet.caches.find? session =
      (f.takes session ((takenFrom ts (dispatchAll now ts s f).schedule.pending).countP
        (Task.fetches session))).2.caches.find? session := by
  induction ts generalizing s f with
  | nil => rfl
  | cons t ts ih =>
    cases hidle : s.idle with
    | nil =>
      simp only [dispatchAll, hidle]
      rw [takenFrom_self]
      rfl
    | cons w ws =>
      have hturn : ∀ m, ((withAffinity t f).2.takes session m).2.caches.find? session =
          (f.takes session (m + if t.fetches session then 1 else 0)).2.caches.find? session := by
        intro m
        cases hfetches : t.fetches session with
        | false =>
          exact Fleet.find?_takes_congr (members_withAffinity t f)
            (find?_withAffinity hfetches f) m
        | true =>
          obtain ⟨rfl, hfar⟩ := fetches_iff.1 hfetches
          rw [(withAffinity_fetching hfar f).2]
          rfl
      rcases next?_cases s with ⟨hnone, _⟩ | hsome
      · -- no ticket is left, but the task in hand has asked already
        simp only [dispatchAll, hidle, hnone]
        rw [takenFrom_cons (Nat.le_refl _), takenFrom_self, List.countP_cons, List.countP_nil]
        exact hturn 0
      · simp only [dispatchAll, hidle, hsome]
        rw [takenFrom_cons (pending_dispatchAll_le ..), List.countP_cons]
        exact (ih _ _).trans (hturn _)

/-! ## Sources of a pass -/

/-- The sources of the tasks that a pass gives to workers. -/
structure Placed (s : Schedule) (f : Fleet) (now : Nat) : Prop where
  served : Served s.pending s (deal now s.pending s f) (s.dispatch f now)
  /-- The tasks that would fetch from afar are given to the live holders in turn. -/
  inTurn : ∀ session, (drawn session s.pending (deal now s.pending s f)).map
      (fun a => a.task.source?) =
    (List.range (drawn session s.pending (deal now s.pending s f)).length).map fun j =>
      some (.ofTurn (turn (f.readyFor session) j))
  fair : ∀ session, ∀ u ∈ f.readyFor session, ∀ v ∈ f.readyFor session,
    ((drawn session s.pending (deal now s.pending s f)).map
      fun a => a.task.source?).count (some (.cached u)) ≤
    ((drawn session s.pending (deal now s.pending s f)).map
      fun a => a.task.source?).count (some (.cached v)) + 1
  far : ∀ session, ∀ a ∈ drawn session s.pending (deal now s.pending s f),
    a.task.source? = some .external ↔ f.readyFor session = []
  near : ∀ e ∈ s.pending.zip (deal now s.pending s f), e.1.source? ≠ some .external →
    e.2.task = e.1
  /-- What is kept of a task that was given away is the assignment itself. -/
  records : ∀ n, (s.dispatch f now).schedule.inFlight.find? n =
    ((deal now s.pending s f).filter fun a => a.task.name = n).getLast?.or (s.inFlight.find? n)
  /-- No other tasks touch the list of a session. -/
  lists : ∀ session, (s.dispatch f now).fleet.caches.find? session =
    (f.takes session ((takenFrom s.pending (s.dispatch f now).schedule.pending).countP
      (Task.fetches session))).2.caches.find? session
  members : (s.dispatch f now).fleet.members = f.members

theorem placed (hd : f.Distinct) (s : Schedule) (now : Nat) : Placed s f now where
  served := served_dispatchAll now s.pending s f
  inTurn session := source_drawn now session s.pending s f
  fair session u hu v hv := by
    have hsources : (drawn session s.pending (deal now s.pending s f)).map
        (fun a => a.task.source?) =
        ((List.range (drawn session s.pending (deal now s.pending s f)).length).map
          (turn (f.readyFor session))).map fun o => some (.ofTurn o) := by
      rw [source_drawn, List.map_map]
      rfl
    have hinj : Function.Injective fun o => some (ResourceSource.ofTurn o) :=
      (Option.some_injective _).comp ResourceSource.ofTurn_injective
    have hcount : ∀ w n, (((List.range n).map (turn (f.readyFor session))).map
        fun o => some (ResourceSource.ofTurn o)).count (some (.cached w)) =
          ((List.range n).map (turn (f.readyFor session))).count (some w) :=
      fun w n => List.count_map_of_injective _ _ hinj (some w)
    rw [hsources, hcount, hcount]
    exact Fleet.count_turns_le (hd.readyFor session) hu hv _
  far session a ha := by
    have hmem : a.task.source? ∈ (drawn session s.pending (deal now s.pending s f)).map
        fun a => a.task.source? := List.mem_map_of_mem ha
    rw [source_drawn] at hmem
    obtain ⟨j, _, hj⟩ := List.mem_map.1 hmem
    rw [← hj, Option.some.injEq, ← Fleet.turn_eq_none (j := j)]
    exact ResourceSource.ofTurn_injective.eq_iff' rfl
  near := near_deal now s.pending s f
  records := find?_dispatch s f now
  lists session := find?_fleet_dispatchAll now session s.pending s f
  members := (dealt_dispatchAll now s.pending s f).members

/-- In every state that a fleet can be in, the live holders of a session are used in turn, however
often one is asked for; those that are not alive keep their order behind each other. So in a
dispatch pass, whatever waits, the tasks that would fetch the resources of a session take them from
its live holders in turn, and from afar only if it has none. Other tasks are given away as they are
and use up no turn. -/
theorem affinity_in_turn (patience : Nat) (past : List Fleet.Operation) :
    (∀ session, InTurn (Fleet.after patience past) session) ∧
    ∀ s now, Placed s (Fleet.after patience past) now :=
  have hd := Fleet.after_distinct patience past
  ⟨hd.inTurn, placed hd⟩

end Schedule
end RenderFarm
