import RenderFarm.Proofs.Schedule.Tickets

/-!
# RenderFarm.Proofs.Schedule.Deadlines

When an assignment runs out of time. The time since its pass is compared with the timeout that its
task has now, and the timeout may have changed on the way.

* `timeoutAfter a later`: the timeout after the operations `later`. `ended a later`: one of them has
  ended the assignment.
* `Made rf past since later a`: in a run, the assignment was made at the time `since`, and the
  operations `later` followed.
* `current?_made`, `made_of_find?`: an assignment is on its way if it was made and has not ended.
* `Exact`: after a delay a probe expires the assignment, and before that none does. `Away`: a worker
  takes no part until it is found among the live workers.
* `timeouts_exact`: what a probe does, and the delays, in every run with distinct names.
-/

namespace RenderFarm
namespace Schedule

variable {s : Schedule} {n : TaskName} {a b : Assignment} {rf : Bool} {past later : List Operation}
  {op : Operation} {ticket : Ticket} {since now : Nat} {w : WorkerName}

/-! ## An assignment on its way -/

/-- The timeout that the operation gives to the task of the assignment. -/
def Operation.timeout? (a : Assignment) : Operation → Option Nat
  | .retime x timeout _ =>
    if a.task.execution = x ∧ a.task.kind = .producing then some timeout else none
  | _ => none

/-- The timeout of the task after the operations, the latest of which comes first. -/
def timeoutAfter (a : Assignment) : List Operation → Nat
  | [] => a.task.timeout
  | op :: later => (op.timeout? a).getD (timeoutAfter a later)

/-- The assignment after operations that do not end it. -/
def afterwards (a : Assignment) (later : List Operation) : Assignment :=
  { a with task := { a.task with timeout := timeoutAfter a later } }

/-- One of the operations has ended the assignment: its worker has reported, it could not be
delivered, its worker has left, or a probe has come when the timeout of that time was over. -/
def ended (a : Assignment) : List Operation → Bool
  | [] => false
  | op :: later => ended a later || op.ends a.task.name (afterwards a later)

theorem changed_afterwards (a : Assignment) (op : Operation) (later : List Operation) :
    op.changed (afterwards a later) = afterwards a (op :: later) := by
  cases op with
  | retime x timeout now =>
    simp only [Operation.changed, timeoutAfter, Operation.timeout?, afterwards]
    by_cases hx : a.task.execution = x ∧ a.task.kind = .producing
    · have hset : retimed x timeout (afterwards a later).task = { a.task with timeout } :=
        if_pos hx
      rw [if_pos hx]
      exact congrArg (fun t => { a with task := t }) hset
    · have hkept : retimed x timeout (afterwards a later).task = (afterwards a later).task :=
        if_neg hx
      rw [if_neg hx]
      exact congrArg (fun t => { a with task := t }) hkept
  | _ => rfl

theorem timeoutAfter_append {more : List Operation} (h : ∀ op ∈ more, op.timeout? a = none) :
    timeoutAfter a (more ++ later) = timeoutAfter a later := by
  induction more with
  | nil => rfl
  | cons op more ih =>
    rw [List.cons_append, timeoutAfter, h op List.mem_cons_self, Option.getD_none]
    exact ih fun op hop => h op (List.mem_cons_of_mem _ hop)

/-! ## Where assignments come from -/

/-- In the run, the assignment was made at the time `since`, and the operations `later` followed. -/
def Made (rf : Bool) (past : List Operation) (since : Nat) (later : List Operation)
    (a : Assignment) : Prop :=
  ∃ f earlier, past = later ++ .dispatch f since :: earlier ∧
    a ∈ (after rf earlier).dealtBy (.dispatch f since)

theorem since_deal {ts : List Task} {f : Fleet} (ha : a ∈ deal now ts s f) : a.since = now := by
  induction ts generalizing s f with
  | nil => cases ha
  | cons t ts ih =>
    simp only [deal] at ha
    split at ha
    · rcases List.mem_cons.1 ha with rfl | ha
      · rfl
      · exact ih ha
    · cases ha

theorem Made.since_eq (h : Made rf past since later a) : a.since = since := by
  obtain ⟨f, earlier, _, ha⟩ := h
  exact since_deal ha

theorem Made.append (h : Made rf past since later a) (more : List Operation) :
    Made rf (more ++ past) since (more ++ later) a := by
  obtain ⟨f, earlier, rfl, ha⟩ := h
  exact ⟨f, earlier, (List.append_assoc _ _ _).symm, ha⟩

theorem Made.cons (h : Made rf past since later a) (op : Operation) :
    Made rf (op :: past) since (op :: later) a :=
  h.append [op]

theorem Made.tail (h : Made rf past since (op :: later) a) :
    ∃ past', past = op :: past' ∧ Made rf past' since later a := by
  obtain ⟨f, earlier, rfl, ha⟩ := h
  exact ⟨_, rfl, f, earlier, rfl, ha⟩

theorem Made.mem_dealtIn (h : Made rf past since later a) : a ∈ dealtIn rf past := by
  induction later generalizing past with
  | nil =>
    obtain ⟨f, earlier, rfl, ha⟩ := h
    exact List.mem_append_right _ ha
  | cons op later ih =>
    obtain ⟨past, rfl, h'⟩ := h.tail
    exact List.mem_append_left _ (ih h')

theorem Made.ticket_lt (h : Made rf past since later a) :
    a.ticket < (after rf past).nextTicket := by
  have hstamped := after_stamped rf past
  have hmem : a.ticket ∈ (dealtIn rf past).map Assignment.ticket :=
    List.mem_map_of_mem h.mem_dealtIn
  rw [hstamped.tickets, List.mem_range'_1] at hmem
  exact hstamped.next ▸ hmem.2

/-! ## What is on its way -/

theorem current?_eq_filter (s : Schedule) (n : TaskName) (ticket : Ticket) :
    s.current? n ticket = (s.inFlight.find? n).filter fun a => a.ticket = ticket := by
  unfold current?
  cases s.inFlight.find? n with
  | none => rfl
  | some a => by_cases ha : a.ticket = ticket <;> simp [ha, Option.filter]

theorem current?_perform (hm : Manned s) (hop : ∀ f now, op ≠ .dispatch f now) :
    (s.perform op).current? n ticket =
      ((s.current? n ticket).filter fun a => !op.ends n a).map op.changed := by
  have hticket : ∀ a, (op.changed a).ticket = a.ticket := by
    intro a
    cases op <;> rfl
  rw [current?_eq_filter, current?_eq_filter, find?_perform hm hop]
  cases s.inFlight.find? n with
  | none => rfl
  | some a =>
    by_cases ha : a.ticket = ticket <;> cases he : op.ends n a <;>
      simp [Option.filter, ha, he, hticket]

/-- A dispatch pass leaves the assignments alone that were made before it. -/
theorem current?_dispatch (hw : Whole s) (hlt : ticket < s.nextTicket) (f : Fleet) (now : Nat) :
    (s.dispatch f now).schedule.current? n ticket = s.current? n ticket := by
  have hd := dealt_dispatchAll now s.pending s f
  refine Option.ext fun a => ?_
  rw [current?_eq_some, current?_eq_some]
  refine and_congr_left fun hticket => ⟨fun ha => ?_, fun ha => ?_⟩
  · rcases hd.find? ha with ⟨hnew, _⟩ | hold
    · exact absurd (hd.ticket hnew).1 (Nat.not_le_of_lt (hticket ▸ hlt))
    · exact hold
  · refine OrderedMap.mem_entries_iff.1 ?_
    rw [show (s.dispatch f now).schedule.inFlight.entries = _ from hd.entries hw.keyed hw.names]
    exact List.mem_append_left _ (OrderedMap.mem_entries_iff.2 ha)

theorem distinct_tail (h : distinct rf (op :: past) = true) : distinct rf past = true := by
  simp only [distinct, Bool.and_eq_true] at h
  exact h.2

/-- An assignment stays on its way, with the timeout of the time, until it has ended. -/
theorem current?_made (h : distinct rf past = true) (ha : Made rf past since later a) :
    (after rf past).current? a.task.name a.ticket =
      if ended a later then none else some (afterwards a later) := by
  -- by induction on what came later; the tickets of later passes are new, so none revives it
  induction later generalizing past with
  | nil =>
    obtain ⟨f, earlier, rfl, ha⟩ := ha
    have hw := whole_of_distinct (distinct_tail h)
    have hd := dealt_dispatchAll since (after rf earlier).pending (after rf earlier) f
    have hentries := hd.entries hw.keyed hw.names
    refine current?_eq_some.2 ⟨OrderedMap.mem_entries_iff.1 (hentries ▸ ?_), rfl⟩
    exact List.mem_append_right _ (List.mem_map_of_mem ha)
  | cons op later ih =>
    obtain ⟨past, rfl, hmade⟩ := ha.tail
    have hbefore := ih (distinct_tail h) hmade
    have hw := whole_of_distinct (distinct_tail h)
    rcases dispatch_or op with ⟨f, now, rfl⟩ | hop
    · rw [show ended a (.dispatch f now :: later) = ended a later from Bool.or_false _]
      exact (current?_dispatch hw hmade.ticket_lt f now).trans hbefore
    · rw [after, current?_perform hw.manned hop, hbefore]
      cases hended : ended a later with
      | true => simp [ended, hended]
      | false =>
        cases hends : op.ends a.task.name (afterwards a later) <;>
          simp [ended, hended, hends, Option.filter, changed_afterwards]

/-- Whatever is on its way was made, and has not ended. -/
theorem made_of_find? (ha : (after rf past).inFlight.find? n = some a) :
    ∃ later b, Made rf past a.since later b ∧ b.task.name = n ∧ ended b later = false ∧
      a = afterwards b later := by
  induction past generalizing a with
  | nil => cases ha
  | cons op past ih =>
    rcases dispatch_or op with ⟨f, now, rfl⟩ | hop
    · have hd := dealt_dispatchAll now (after rf past).pending (after rf past) f
      rcases hd.find? ha with ⟨hnew, hname⟩ | hold
      · exact ⟨[], a, ⟨f, past, by rw [since_deal hnew]; rfl, by rw [since_deal hnew]; exact hnew⟩,
          hname, rfl, rfl⟩
      · obtain ⟨later, b, hb, hname, hended, rfl⟩ := ih hold
        exact ⟨_, b, hb.cons _, hname, by simp [ended, hended, Operation.ends], rfl⟩
    · rw [after, find?_perform (after_stamped rf past).manned hop, Option.map_eq_some_iff] at ha
      obtain ⟨c, hc, rfl⟩ := ha
      obtain ⟨hc, hends⟩ := Option.filter_eq_some_iff.1 hc
      obtain ⟨later, b, hb, rfl, hended, rfl⟩ := ih hc
      refine ⟨op :: later, b, ?_, rfl, ?_, changed_afterwards b op later⟩
      · rw [changed_afterwards]
        exact hb.cons op
      · simpa [ended, hended] using hends

/-! ## Probes -/

/-- What a probe does, whatever has been done since the assignment was made. -/
theorem expire_made (h : distinct rf past = true) (ha : Made rf past since later a) (now : Nat) :
    (after rf past).expire a.task.name a.ticket now =
      if ended a later then (after rf past, .stale)
      else if timeoutAfter a later ≤ now - since then
        ((after rf past).release a.task.name a.worker, .expired (afterwards a later))
      else (after rf past, .remaining (timeoutAfter a later - (now - since))) := by
  have hsince : (afterwards a later).since = since := ha.since_eq
  have htimeout : (afterwards a later).task.timeout = timeoutAfter a later := rfl
  rw [expire, current?_made h ha]
  cases ended a later with
  | true => rfl
  | false =>
    simp only [Bool.false_eq_true, if_false, hsince, htimeout]
    by_cases hdue : timeoutAfter a later ≤ now - since
    · rw [if_pos hdue, if_neg (Nat.not_lt_of_le hdue)]
      rfl
    · rw [if_neg hdue, if_pos (Nat.lt_of_not_le hdue)]

/-- If the task gets no other timeout, and the assignment does not end in another way, then a probe
expires it as soon as the delay is over, and not before. -/
def Exact (rf : Bool) (past later : List Operation) (a : Assignment) (now delay : Nat) : Prop :=
  ∀ more, distinct rf (more ++ past) = true → (∀ op ∈ more, op.timeout? a = none) →
    ended a (more ++ later) = false → ∀ t, now ≤ t →
      ((∃ b, ((after rf (more ++ past)).expire a.task.name a.ticket t).2 = .expired b) ↔
        now + delay ≤ t)

theorem Made.exact {delay : Nat} (ha : Made rf past since later a)
    (hdelay : ∀ t, now ≤ t → (timeoutAfter a later ≤ t - since ↔ now + delay ≤ t)) :
    Exact rf past later a now delay := by
  intro more h hmore hended t ht
  rw [expire_made h (ha.append more), hended, timeoutAfter_append hmore, ← hdelay t ht]
  by_cases hdue : timeoutAfter a later ≤ t - since <;> simp [hdue]

/-- Under each name there is one probe if a producing task of the execution is on its way, and none
otherwise. -/
theorem probes_retime (hk : s.Keyed) (x : ExecutionName) (timeout now : Nat) (n : TaskName) :
    (s.retime x timeout now).2.filter (fun p => p.task = n) =
      ((s.inFlight.find? n).filter fun a =>
        a.task.execution = x ∧ a.task.kind = .producing).toList.map fun a =>
          ⟨n, a.ticket, timeout - (now - a.since)⟩ := by
  have hname : ∀ n a, s.inFlight.find? n = some a → a.task.name = n := fun n a ha =>
    hk n a (OrderedMap.mem_entries_iff.2 ha)
  simp only [retime, List.filter_map, Function.comp_def]
  rw [List.filter_comm, OrderedMap.filter_values hname n]
  cases ha : s.inFlight.find? n with
  | none => rfl
  | some a =>
    by_cases hx : a.task.execution = x ∧ a.task.kind = .producing <;>
      simp [Option.filter, hx, hname n a ha]

/-! ## Workers that are out -/

/-- The worker is neither idle nor busy until it is found among the live workers. Then it is
idle. -/
def Away (rf : Bool) (past : List Operation) (w : WorkerName) : Prop :=
  ∀ more, (∀ members, .syncWorkers members ∈ more → w ∉ members) →
    (after rf (more ++ past)).workerState? w = none ∧
    ∀ members, w ∈ members →
      (after rf (.syncWorkers members :: more ++ past)).workerState? w = some .idle

theorem away_of_not_enlisted (h : ¬ (after rf past).Enlisted w) : Away rf past w := by
  intro more hmore
  have hout : ¬ (after rf (more ++ past)).Enlisted w := by
    induction more with
    | nil => exact h
    | cons op more ih =>
      have hbefore := ih fun members hmem => hmore members (List.mem_cons_of_mem _ hmem)
      intro hw
      have hm := (after_stamped rf (more ++ past)).manned
      rcases (performed hm op).enlisted w hw with hold | ⟨members, rfl, hmember⟩
      · exact hbefore hold
      · exact hmore members List.mem_cons_self hmember
  have hnone : (after rf (more ++ past)).workerState? w = none :=
    Option.not_isSome_iff_eq_none.1 fun hsome => hout (workerState?_isSome.1 hsome)
  refine ⟨hnone, fun members hw => ?_⟩
  have hstate := workerState?_syncWorkers (after_stamped rf (more ++ past)).manned members w
  rw [if_pos hw, hnone] at hstate
  exact hstate

/-! ## Any operations -/

/-- How a probe finds an assignment that was made at the time `since`. -/
structure Punctual (rf : Bool) (past : List Operation) (since : Nat) (later : List Operation)
    (a : Assignment) : Prop where
  /-- The first probe that comes when the time is over expires the assignment, and none before. -/
  probe : ∀ now, (after rf past).expire a.task.name a.ticket now =
    if ended a later then (after rf past, .stale)
    else if timeoutAfter a later ≤ now - since then
      ((after rf past).release a.task.name a.worker, .expired (afterwards a later))
    else (after rf past, .remaining (timeoutAfter a later - (now - since)))
  remaining : ∀ now delay, since ≤ now →
    ((after rf past).expire a.task.name a.ticket now).2 = .remaining delay →
      Exact rf past later a now delay
  retimed : ∀ x timeout now, since ≤ now → ∀ p ∈ ((after rf past).retime x timeout now).2,
    p.task = a.task.name → p.ticket = a.ticket →
      Exact rf (.retime x timeout now :: past) (.retime x timeout now :: later) a now p.delay
  expired : ∀ now b, ((after rf past).expire a.task.name a.ticket now).2 = .expired b →
    Away rf (.expire a.task.name a.ticket now :: past) a.worker

theorem Made.remaining {delay : Nat} (h : distinct rf past = true)
    (ha : Made rf past since later a) (hnow : since ≤ now)
    (hdelay : ((after rf past).expire a.task.name a.ticket now).2 = .remaining delay) :
    Exact rf past later a now delay := by
  rw [expire_made h ha] at hdelay
  split at hdelay
  · cases hdelay
  · split at hdelay
    · cases hdelay
    · rename_i hdue
      cases hdelay
      exact ha.exact fun t ht => by omega

theorem Made.retimed (h : distinct rf past = true) (ha : Made rf past since later a)
    (hnow : since ≤ now) {x : ExecutionName} {timeout : Nat} {p : Probe}
    (hp : p ∈ ((after rf past).retime x timeout now).2) (htask : p.task = a.task.name)
    (hticket : p.ticket = a.ticket) :
    Exact rf (.retime x timeout now :: past) (.retime x timeout now :: later) a now p.delay := by
  have hmem : p ∈ ((after rf past).retime x timeout now).2.filter
      fun p => p.task = a.task.name := List.mem_filter.2 ⟨hp, decide_eq_true htask⟩
  rw [probes_retime (whole_of_distinct h).keyed, List.mem_map] at hmem
  obtain ⟨c, hc, rfl⟩ := hmem
  obtain ⟨hc, hx⟩ := Option.filter_eq_some_iff.1 (Option.mem_toList.1 hc)
  -- the probe is about the assignment, since it has its ticket
  have hcurrent := current?_made h ha
  rw [current?_eq_some.2 ⟨hc, hticket⟩] at hcurrent
  split at hcurrent
  · cases hcurrent
  · cases hcurrent
    have hx : a.task.execution = x ∧ a.task.kind = .producing := of_decide_eq_true hx
    have htimeout : timeoutAfter a (.retime x timeout now :: later) = timeout := by
      simp [timeoutAfter, Operation.timeout?, hx]
    have hsince : (afterwards a later).since = since := ha.since_eq
    refine (ha.cons _).exact fun t ht => ?_
    rw [htimeout, hsince]
    show timeout ≤ t - since ↔ now + (timeout - (now - since)) ≤ t
    omega

theorem Made.expired (h : distinct rf past = true) (ha : Made rf past since later a)
    (hb : ((after rf past).expire a.task.name a.ticket now).2 = .expired b) :
    Away rf (.expire a.task.name a.ticket now :: past) a.worker := by
  have hm := (after_stamped rf past).manned
  refine away_of_not_enlisted fun hw => ?_
  have hs : (after rf past).expire a.task.name a.ticket now = (_, .expired b) :=
    Prod.ext rfl hb
  obtain ⟨hcurrent, heq⟩ := expire_expired hs
  have hworker : b.worker = a.worker := by
    rw [current?_made h ha] at hcurrent
    split at hcurrent
    · cases hcurrent
    · cases hcurrent
      rfl
  have hw : ((after rf past).release a.task.name b.worker).Enlisted a.worker := heq ▸ hw
  exact (((manned_release hm (current?_eq_some.1 hcurrent).1).2 _).1 hw).1 hworker.symm

structure OnTime (rf : Bool) (past : List Operation) : Prop where
  /-- What is on its way was made, and has not ended. -/
  current : ∀ n a, (after rf past).inFlight.find? n = some a ↔
    ∃ later b, Made rf past a.since later b ∧ b.task.name = n ∧ ended b later = false ∧
      a = afterwards b later
  punctual : ∀ since later a, Made rf past since later a → Punctual rf past since later a
  /-- One probe for each producing task of the execution that is on its way. -/
  probes : ∀ x timeout now n,
    ((after rf past).retime x timeout now).2.filter (fun p => p.task = n) =
      (((after rf past).inFlight.find? n).filter fun a =>
        a.task.execution = x ∧ a.task.kind = .producing).toList.map fun a =>
          ⟨n, a.ticket, timeout - (now - a.since)⟩

/-- If the names of the tasks that wait or run are distinct, no timeout fires early and none late:
a probe expires an assignment if the timeout that its task has then is over, and otherwise does
nothing but tell the time that is left. -/
theorem timeouts_exact (rf : Bool) (past : List Operation) (h : distinct rf past = true) :
    OnTime rf past where
  current := by
    intro n a
    refine ⟨made_of_find?, ?_⟩
    rintro ⟨later, b, hb, rfl, hended, rfl⟩
    have hcurrent := current?_made h hb
    rw [hended] at hcurrent
    exact (current?_eq_some.1 hcurrent).1
  punctual := fun since later a ha => {
    probe := expire_made h ha
    remaining := fun _ _ => ha.remaining h
    retimed := fun _ _ _ hnow _ => ha.retimed h hnow
    expired := fun _ _ => ha.expired h }
  probes := probes_retime (whole_of_distinct h).keyed

/-- The first task gets more time, and then less; the second has been late by no time at all. -/
def sampleProbes : List Operation :=
  [.syncWorkers [⟨"w1"⟩, ⟨"w2"⟩], .enqueue (unit "p" "x"), .enqueue (unit "q" "y"),
    .dispatch (.new 4) 100, .expire ⟨"p"⟩ 1 149, .retime ⟨"x"⟩ 60 150, .expire ⟨"p"⟩ 1 159,
    .expire ⟨"q"⟩ 2 150, .retime ⟨"x"⟩ 20 110].reverse
where
  unit (n x : String) : Task := ⟨⟨n⟩, ⟨"s"⟩, ⟨x⟩, .produce 0 .nothing, 50⟩

theorem timeouts_exact_sample :
    let s := after true sampleProbes
    OnTime true sampleProbes ∧ s.inFlight.keys = [⟨"p"⟩] ∧
    (s.expire ⟨"p"⟩ 1 119).2 = .remaining 1 ∧ (s.expire ⟨"p"⟩ 1 120).1.inFlight.keys = [] ∧
    (s.retime ⟨"x"⟩ 80 130).2 = [⟨⟨"p"⟩, 1, 50⟩] ∧ (s.retime ⟨"x"⟩ 20 130).2 = [⟨⟨"p"⟩, 1, 0⟩] ∧
    s.workerState? ⟨"w2"⟩ = none ∧
    (s.syncWorkers [⟨"w1"⟩, ⟨"w2"⟩]).1.workerState? ⟨"w2"⟩ = some .idle :=
  ⟨timeouts_exact true sampleProbes (by decide +kernel), by decide +kernel, by decide +kernel,
    by decide +kernel, by decide +kernel, by decide +kernel, by decide +kernel, by decide +kernel⟩

end Schedule
end RenderFarm
