import RenderFarm.Proofs.Schedule.Lines
import RenderFarm.Proofs.Schedule.Pool

/-!
# RenderFarm.Proofs.Schedule.Tickets

An assignment is known by its ticket. Names may be used again while they wait or run, so a new
assignment can take the place of an older one under the same name; its ticket tells them apart.

* `Operation.ends`, `Operation.changed`: what an operation does to an assignment that is kept;
  `find?_perform` says so of all operations but a dispatch pass.
* `dealtIn rf past`: the assignments that a run has made. `Performed s op s'`: what becomes of the
  workers and the tickets.
* `Stamped made s`: the assignments carry the tickets 1, 2, 3, …, and under a name the last one is
  kept, if any. One operation, any operations: `Stamped.perform`, `after_stamped`.
* `stale_tickets_harmless`: a ticket that is not current does nothing, and the earlier tickets of
  the same name are not current.
-/

namespace RenderFarm
namespace Schedule

variable {s s' : Schedule} {n : TaskName} {a b : Assignment} {rf : Bool} {past : List Operation}
  {made : List Assignment} {ticket : Ticket} {op : Operation}

/-! ## What becomes of an assignment -/

/-- The operation ends the assignment, which is kept under the name `n`. -/
def Operation.ends (n : TaskName) (a : Assignment) : Operation → Bool
  | .complete w n' => n' = n && w = a.worker
  | .expire n' ticket now => n' = n && (ticket = a.ticket && a.task.timeout ≤ now - a.since)
  | .abort n' ticket => n' = n && ticket = a.ticket
  | .syncWorkers members => a.worker ∉ members
  | .enqueue _ | .dispatch .. | .dropExecution _ | .retime .. => false

/-- What the operation makes of an assignment that it does not end. -/
def Operation.changed (a : Assignment) : Operation → Assignment
  | .retime x timeout _ => { a with task := retimed x timeout a.task }
  | _ => a

theorem gist_changed (a : Assignment) (op : Operation) : (op.changed a).gist = a.gist := by
  cases op with
  | retime x timeout now => simp only [Operation.changed, Assignment.gist, gist_retimed]
  | _ => rfl

theorem filter_all (o : Option Assignment) : (o.filter fun _ => true) = o := by
  cases o <;> rfl

/-- The assignment under one name is taken out if it is such. -/
theorem find?_ended {m : OrderedMap TaskName Assignment} {n' : TaskName} (p : Assignment → Bool)
    (n : TaskName) : (if (m.find? n').any p then m.erase n' else m).find? n =
      (m.find? n).filter fun a => !(n' = n && p a) := by
  by_cases hn : n' = n
  · subst hn
    cases ha : m.find? n' with
    | none => simp [ha]
    | some a => by_cases hp : p a = true <;> simp [ha, hp, OrderedMap.find?_erase, Option.filter]
  · simp only [hn, decide_false, Bool.false_and, Bool.not_false, filter_all]
    split
    · rw [OrderedMap.find?_erase, if_neg hn]
    · rfl

theorem inFlight_completed (s : Schedule) (w : WorkerName) (n : TaskName) :
    (s.complete w n).1.inFlight =
      if (s.inFlight.find? n).any fun a => w = a.worker then s.inFlight.erase n
      else s.inFlight := by
  unfold complete
  cases s.inFlight.find? n with
  | none => rfl
  | some a =>
    by_cases hw : a.worker = w
    · simp only [hw, if_true, Option.any_some, decide_true]
      split <;> rfl
    · simp [hw, Ne.symm hw]

theorem inFlight_aborted (s : Schedule) (n : TaskName) (ticket : Ticket) :
    (s.abort n ticket).1.inFlight =
      if (s.inFlight.find? n).any fun a => ticket = a.ticket then s.inFlight.erase n
      else s.inFlight := by
  unfold abort current?
  cases s.inFlight.find? n with
  | none => rfl
  | some a => by_cases ht : a.ticket = ticket <;> simp [ht, Ne.symm, release]

theorem inFlight_expired (s : Schedule) (n : TaskName) (ticket : Ticket) (now : Nat) :
    (s.expire n ticket now).1.inFlight =
      if (s.inFlight.find? n).any fun a => ticket = a.ticket && a.task.timeout ≤ now - a.since then
        s.inFlight.erase n
      else s.inFlight := by
  unfold expire current?
  cases s.inFlight.find? n with
  | none => rfl
  | some a =>
    by_cases ht : a.ticket = ticket
    · by_cases hlate : now - a.since < a.task.timeout
      · simp [ht, hlate, Nat.not_le_of_lt hlate]
      · simp [ht, hlate, Nat.le_of_not_lt hlate, release]
    · simp [ht, Ne.symm ht]

theorem dispatch_or (op : Operation) :
    (∃ f now, op = .dispatch f now) ∨ ∀ f now, op ≠ .dispatch f now :=
  Classical.or_iff_not_imp_left.2 fun h f now heq => h ⟨f, now, heq⟩

/-- An operation other than a dispatch pass makes no assignment. -/
theorem find?_perform (hm : Manned s) (hop : ∀ f now, op ≠ .dispatch f now) (n : TaskName) :
    (s.perform op).inFlight.find? n =
      ((s.inFlight.find? n).filter fun a => !op.ends n a).map op.changed := by
  cases op with
  | dispatch f now => exact absurd rfl (hop f now)
  | enqueue t =>
    have hin : (s.enqueue t).inFlight = s.inFlight := by
      unfold enqueue
      split <;> rfl
    simp [perform, hin, Operation.ends, Operation.changed, filter_all]
  | dropExecution x =>
    simp [perform, dropExecution, Operation.ends, Operation.changed, filter_all]
  | retime x timeout now =>
    simp only [perform, retime, OrderedMap.find?_mapValues, Operation.ends, Bool.not_false,
      filter_all]
    rfl
  | complete w n' =>
    simp only [perform, inFlight_completed, find?_ended, Operation.ends, Operation.changed,
      Option.map_id']
  | expire n' ticket now =>
    simp only [perform, inFlight_expired, find?_ended, Operation.ends, Operation.changed,
      Option.map_id']
  | abort n' ticket =>
    simp only [perform, inFlight_aborted, find?_ended, Operation.ends, Operation.changed,
      Option.map_id']
  | syncWorkers members =>
    simp [perform, syncWorkers_eq hm, OrderedMap.find?_filter, Operation.ends,
      Operation.changed]

/-! ## The assignments of a run -/

/-- The assignments that the operation makes, in their order. -/
def dealtBy (s : Schedule) : Operation → List Assignment
  | .dispatch f now => deal now s.pending s f
  | _ => []

/-- The assignments that a run has made, the earliest first. -/
def dealtIn (reducingFirst : Bool) : List Operation → List Assignment
  | [] => []
  | op :: past => dealtIn reducingFirst past ++ (after reducingFirst past).dealtBy op

/-- What becomes of the workers and the tickets: nobody comes in who is not found among the live
workers, and only assignments take tickets. -/
structure Performed (s : Schedule) (op : Operation) (s' : Schedule) : Prop where
  manned : Manned s'
  enlisted : ∀ w, s'.Enlisted w →
    s.Enlisted w ∨ ∃ members, op = .syncWorkers members ∧ w ∈ members
  next : s'.nextTicket = s.nextTicket + (s.dealtBy op).length

theorem Steady.performed (hs : Steady s s') (hm : Manned s) (hop : s.dealtBy op = []) :
    Performed s op s' :=
  ⟨hm.steady hs, fun w hw => .inl ((hs.enlisted w).1 hw), by simp [nextTicket, hs.tickets, hop]⟩

theorem performed_release (hm : Manned s) (ha : s.inFlight.find? n = some a)
    (hop : s.dealtBy op = []) : Performed s op (s.release n a.worker) := by
  obtain ⟨hm', hen⟩ := manned_release hm ha
  exact ⟨hm', fun w hw => .inl ((hen w).1 hw).2, by simp [nextTicket, release, hop]⟩

theorem performed (hm : Manned s) (op : Operation) : Performed s op (s.perform op) := by
  cases op with
  | enqueue t => exact (steady_enqueue s t).performed hm rfl
  | dispatch f now =>
    have hd := dealt_dispatchAll now s.pending s f
    refine ⟨hd.manned hm, fun w hw => .inl ?_, hd.next⟩
    rcases hw with hidle | hbusy
    · exact .inl (hd.workers.subset (List.mem_append_right _ hidle))
    · exact (hd.busy_keys.1 hbusy).imp_left fun hnew =>
        hd.workers.subset (List.mem_append_left _ hnew)
  | complete v n =>
    simp only [perform]
    rcases hc : s.complete v n with ⟨s₁, _ | a⟩
    · rw [complete_none hc]
      exact (Steady.refl s).performed hm rfl
    · obtain ⟨hm', hen⟩ := manned_complete hm hc
      exact ⟨hm', fun w hw => .inl ((hen w).1 hw), (frees_complete hc).2.tickets⟩
  | expire n ticket now =>
    simp only [perform, expire]
    cases ha : s.current? n ticket with
    | none => exact (Steady.refl s).performed hm rfl
    | some a =>
      by_cases hlate : now - a.since < a.task.timeout
      · simp only [hlate, if_true]
        exact (Steady.refl s).performed hm rfl
      · simp only [hlate, if_false]
        exact performed_release hm (current?_eq_some.1 ha).1 rfl
  | abort n ticket =>
    simp only [perform, abort]
    cases ha : s.current? n ticket with
    | none => exact (Steady.refl s).performed hm rfl
    | some a => exact performed_release hm (current?_eq_some.1 ha).1 rfl
  | syncWorkers members =>
    obtain ⟨hm', hen⟩ := manned_syncWorkers hm members
    exact ⟨hm', fun w hw => .inr ⟨members, rfl, (hen w).1 hw⟩,
      (frees_syncWorkers s members).tickets⟩
  | dropExecution x => exact (steady_dropExecution s x).performed hm rfl
  | retime x timeout now => exact (steady_retime s x timeout now).performed hm rfl

/-- The assignments `made` have the tickets 1, 2, 3, …, and what is kept under a name is the last
of them that was made under it. -/
structure Stamped (made : List Assignment) (s : Schedule) : Prop where
  tickets : made.map Assignment.ticket = List.range' 1 made.length
  next : s.nextTicket = 1 + made.length
  manned : Manned s
  latest : ∀ n a, s.inFlight.find? n = some a →
    ∃ b, (made.filter fun b => b.task.name = n).getLast? = some b ∧ b.gist = a.gist

theorem Stamped.dispatch (h : Stamped made s) (f : Fleet) (now : Nat) :
    Stamped (made ++ deal now s.pending s f) (s.dispatch f now).schedule := by
  have hd := dealt_dispatchAll now s.pending s f
  refine ⟨?_, ?_, hd.manned h.manned, fun n a ha => ?_⟩
  · rw [List.map_append, h.tickets, hd.tickets, h.next, List.length_append, List.range'_append_1]
  · rw [show (s.dispatch f now).schedule.nextTicket = _ from hd.next, h.next, List.length_append,
      Nat.add_assoc]
  · rw [find?_dispatch] at ha
    rw [List.filter_append, List.getLast?_append]
    cases hnew : ((deal now s.pending s f).filter fun b => b.task.name = n).getLast? with
    | none =>
      rw [hnew, Option.none_or] at ha
      exact h.latest n a ha
    | some b =>
      rw [hnew, Option.some_or] at ha
      cases ha
      exact ⟨_, rfl, rfl⟩

/-- An operation keeps the stamps. -/
theorem Stamped.perform (h : Stamped made s) (op : Operation) :
    Stamped (made ++ s.dealtBy op) (s.perform op) := by
  rcases dispatch_or op with ⟨f, now, rfl⟩ | hop
  · exact h.dispatch f now
  · have hnone : s.dealtBy op = [] := by
      cases op with
      | dispatch f now => exact absurd rfl (hop f now)
      | _ => rfl
    have hperformed := performed h.manned op
    have hnext := hperformed.next
    rw [hnone, List.length_nil, Nat.add_zero] at hnext
    rw [hnone, List.append_nil]
    refine ⟨h.tickets, hnext.trans h.next, hperformed.manned, fun n a ha => ?_⟩
    rw [find?_perform h.manned hop, Option.map_eq_some_iff] at ha
    obtain ⟨b, hb, rfl⟩ := ha
    obtain ⟨c, hc, hgist⟩ := h.latest n b (Option.filter_eq_some_iff.1 hb).1
    exact ⟨c, hc, hgist.trans (gist_changed b op).symm⟩

theorem after_stamped (rf : Bool) (past : List Operation) :
    Stamped (dealtIn rf past) (after rf past) := by
  induction past with
  | nil => exact ⟨rfl, rfl, manned_new rf, nofun⟩
  | cons op past ih => exact ih.perform op

/-! ## Tickets that are not current -/

theorem Stamped.increasing (h : Stamped made s) : (made.map Assignment.ticket).Pairwise (· < ·) :=
  h.tickets ▸ List.pairwise_lt_range'

/-- What is kept was made, under the name under which it is kept. -/
theorem Stamped.kept (h : Stamped made s) (ha : s.inFlight.find? n = some a) :
    ∃ b ∈ made, b.task.name = n ∧ b.ticket = a.ticket := by
  obtain ⟨b, hb, hgist⟩ := h.latest n a ha
  have hmem := List.mem_filter.1 (List.mem_of_getLast? hb)
  obtain ⟨_, _, hticket, _⟩ := Assignment.mk.inj hgist
  exact ⟨b, hmem.1, of_decide_eq_true hmem.2, hticket⟩

theorem Stamped.nodup (h : Stamped made s) : (s.inFlight.values.map Assignment.ticket).Nodup := by
  refine OrderedMap.nodup_map_values fun n n' a a' ha ha' heq => ?_
  obtain ⟨b, hb, rfl, hticket⟩ := h.kept ha
  obtain ⟨b', hb', rfl, hticket'⟩ := h.kept ha'
  have hdistinct : (made.map Assignment.ticket).Nodup := h.tickets ▸ List.nodup_range' 1
  rw [List.inj_on_of_nodup_map hdistinct hb hb' (hticket.trans (heq.trans hticket'.symm))]

/-- When a later assignment was made under its name, an assignment is kept no more. -/
theorem Stamped.outdated {earlier later : List Assignment} {c : Assignment}
    (h : Stamped (earlier ++ b :: later) s) (hc : c ∈ later) (hname : c.task.name = b.task.name)
    (ha : s.inFlight.find? b.task.name = some a) : a.ticket ≠ b.ticket := by
  obtain ⟨d, hd, hgist⟩ := h.latest _ a ha
  obtain ⟨_, _, hticket, _⟩ := Assignment.mk.inj hgist
  have hsplit : earlier ++ b :: later = (earlier ++ [b]) ++ later := by simp
  have hd : d ∈ later := by
    rw [hsplit, List.filter_append, List.getLast?_append] at hd
    cases hlast : (later.filter fun c => c.task.name = b.task.name).getLast? with
    | none =>
      rw [List.getLast?_eq_none_iff, List.filter_eq_nil_iff] at hlast
      simpa [hname] using hlast c hc
    | some e =>
      rw [hlast, Option.some_or] at hd
      cases hd
      exact (List.mem_filter.1 (List.mem_of_getLast? hlast)).1
  have hlt := h.increasing
  rw [List.map_append, List.pairwise_append, List.map_cons, List.pairwise_cons] at hlt
  exact hticket ▸ Nat.ne_of_gt (hlt.2.1.1 _ (List.mem_map_of_mem hd))

theorem current?_eq_none : s.current? n ticket = none ↔
    ∀ a, s.inFlight.find? n = some a → a.ticket ≠ ticket := by
  simp only [Option.eq_none_iff_forall_ne_some, ne_eq, current?_eq_some, not_and]

/-- Nothing is done about a ticket that is not current. -/
def Harmless (s : Schedule) (n : TaskName) (ticket : Ticket) : Prop :=
  (∀ now, s.expire n ticket now = (s, .stale)) ∧ s.abort n ticket = (s, none)

theorem harmless (h : ∀ a, s.inFlight.find? n = some a → a.ticket ≠ ticket) :
    Harmless s n ticket := by
  have hnone := current?_eq_none.2 h
  refine ⟨fun now => ?_, ?_⟩
  · simp only [expire, hnone]
  · simp only [abort, hnone]

structure ToldApart (rf : Bool) (past : List Operation) : Prop where
  increasing : ((dealtIn rf past).map Assignment.ticket).Pairwise (· < ·)
  /-- The caller of a pass gets what the pass has made. -/
  given : ∀ f now as, ((after rf past).dispatch f now).assignments = some as →
    as = (after rf past).dealtBy (.dispatch f now)
  /-- What is kept under a name is the last assignment that was made under it. -/
  latest : ∀ n a, (after rf past).inFlight.find? n = some a →
    ∃ b, ((dealtIn rf past).filter fun b => b.task.name = n).getLast? = some b ∧ b.gist = a.gist
  tickets : ((after rf past).inFlight.values.map Assignment.ticket).Nodup
  workers : ((after rf past).inFlight.values.map Assignment.worker).Nodup
  busy : ∀ n a, (after rf past).inFlight.find? n = some a → a.worker ∈ (after rf past).busy.keys
  idle : (after rf past).idle.Nodup
  apart : ∀ w ∈ (after rf past).idle, w ∉ (after rf past).busy.keys
  stale : ∀ n ticket, (∀ a, (after rf past).inFlight.find? n = some a → a.ticket ≠ ticket) →
    Harmless (after rf past) n ticket
  outdated : ∀ earlier b later, dealtIn rf past = earlier ++ b :: later →
    (∃ c ∈ later, c.task.name = b.task.name) → Harmless (after rf past) b.task.name b.ticket

/-- Whatever names the tasks have, a ticket that is not current does nothing, and the tickets that
were given before for tasks of the same name are not current. -/
theorem stale_tickets_harmless (rf : Bool) (past : List Operation) : ToldApart rf past where
  increasing := (after_stamped rf past).increasing
  given := by
    intro f now as has
    have hserved := served_dispatchAll now (after rf past).pending (after rf past) f
    rcases hserved.rest with ⟨hmade, _⟩ | ⟨hnone, _⟩
    · exact Option.some.inj (has.symm.trans hmade)
    · exact absurd (has.symm.trans hnone) (Option.some_ne_none as)
  latest := (after_stamped rf past).latest
  tickets := (after_stamped rf past).nodup
  workers := OrderedMap.nodup_map_values (after_stamped rf past).manned.single
  busy := (after_stamped rf past).manned.held
  idle := (after_stamped rf past).manned.idle_nodup
  apart := (after_stamped rf past).manned.apart
  stale := fun _ _ => harmless
  outdated := by
    rintro earlier b later hmade ⟨c, hc, hname⟩
    exact harmless fun a ha => (hmade ▸ after_stamped rf past).outdated hc hname ha

/-- The second of two tasks of one name takes the place of the first, whose worker stays busy. -/
example :
    let t : Task := ⟨⟨"p"⟩, ⟨"s"⟩, ⟨"x"⟩, .produce 0 .nothing, 50⟩
    let past : List Operation :=
      [.dispatch (.new 4) 0, .enqueue t, .enqueue t, .syncWorkers [⟨"w1"⟩, ⟨"w2"⟩]]
    let s := after true past
    (dealtIn true past).map Assignment.ticket = [1, 2] ∧
    s.inFlight.values.map Assignment.ticket = [2] ∧ s.busy.keys = [⟨"w1"⟩, ⟨"w2"⟩] ∧
    (s.expire ⟨"p"⟩ 1 90).2 = .stale ∧ (s.abort ⟨"p"⟩ 2).2.isSome := by decide +kernel

end Schedule
end RenderFarm
