import RenderFarm.Proofs.Schedule.Conservation
import RenderFarm.Proofs.Schedule.Tasks

/-!
# RenderFarm.Proofs.Schedule.Lines

The order of the queue. If merges go first, the queue is two lines, the merges in front of the
producing tasks; otherwise it is one. A line is first come, first served.

* `Line`: the tasks that have come, numbered in the order in which they came, and what has become of
  each. `turns`: the waiting ones in the order in which they are to be dealt.
* `Served ts s as p`: a dispatch pass takes the tasks and the workers from the front.
* `Ranked arrived l`: the numbers of a line.
* `first_come_first_served`: the queue is `turns` after any operations, so tasks of one kind never
  overtake each other, and no producing task is dealt before a merge that waits.
-/

namespace RenderFarm
namespace Schedule

/-- A task with the number of tasks that came before it. -/
abbrev Numbered := Task × Nat

/-- What has become of the tasks. -/
structure Line where
  came : Nat
  /-- In the order in which they came. -/
  waiting : List Numbered
  /-- In the order in which they were dealt. -/
  dealt : List Numbered
  /-- Dropped with their executions, or for want of a ticket. -/
  dropped : List Numbered

/-- The waiting tasks in the order in which they are to be dealt. -/
def turns (reducingFirst : Bool) (waiting : List Numbered) : List Numbered :=
  if reducingFirst then
    waiting.filter (·.1.kind = .reducing) ++ waiting.filter (·.1.kind = .producing)
  else waiting

/-- Takes out the first `n` of the tasks whose turn it is; `dealt` of them are dealt. -/
def Line.deal (l : Line) (reducingFirst : Bool) (n dealt : Nat) : Line :=
  let out := (turns reducingFirst l.waiting).take n
  { l with
    waiting := l.waiting.filter fun e => e.2 ∉ out.map Prod.snd
    dealt := l.dealt ++ out.take dealt
    dropped := l.dropped ++ out.drop dealt }

/-- The line after an operation on the schedule `s`. How many tasks a dispatch pass deals depends on
the workers and the tickets, and is read off the schedule. -/
def Line.perform (l : Line) (reducingFirst : Bool) (s : Schedule) : Operation → Line
  | .enqueue t => { l with came := l.came + 1, waiting := l.waiting ++ [(t, l.came)] }
  | .dispatch f now =>
    let p := (s.dispatch f now).schedule
    l.deal reducingFirst (s.pending.length - p.pending.length) (p.nextTicket - s.nextTicket)
  | .dropExecution x =>
    { l with
      waiting := l.waiting.filter fun e => e.1.execution ≠ x
      dropped := l.dropped ++ l.waiting.filter fun e => e.1.execution = x }
  | .retime x timeout _ =>
    { l with waiting := l.waiting.map fun e => (retimed x timeout e.1, e.2) }
  | .complete .. | .expire .. | .abort .. | .syncWorkers _ => l

def line (reducingFirst : Bool) : List Operation → Line
  | [] => ⟨0, [], [], []⟩
  | op :: past => (line reducingFirst past).perform reducingFirst (after reducingFirst past) op

variable {s : Schedule} {rf : Bool} {es : List Numbered} {ts : List Task} {t : Task}
  {l : Line} {kind : TaskKind}

/-! ## Turns -/

theorem filter_kind_kind (k : TaskKind) :
    (es.filter (·.1.kind = kind)).filter (·.1.kind = k) =
      if k = kind then es.filter (·.1.kind = kind) else [] := by
  rw [List.filter_filter]
  split
  · rename_i h
    simp [h]
  · rename_i h
    refine List.filter_eq_nil_iff.2 fun e _ hk => ?_
    simp only [Bool.and_eq_true, decide_eq_true_eq] at hk
    exact h (hk.1.symm.trans hk.2)

theorem turns_filter (q : Numbered → Bool) :
    turns rf (es.filter q) = (turns rf es).filter q := by
  unfold turns
  split
  · simp only [List.filter_append, List.filter_filter, Bool.and_comm]
  · rfl

theorem turns_map {g : Numbered → Numbered} (hg : ∀ e, (g e).1.kind = e.1.kind) :
    turns rf (es.map g) = (turns rf es).map g := by
  unfold turns
  split
  · simp only [List.filter_map, List.map_append, Function.comp_def, hg]
  · rfl

/-- Among the tasks of one kind, the turns are as they came. -/
theorem turns_kind (rf : Bool) (es : List Numbered) (kind : TaskKind) :
    (turns rf es).filter (·.1.kind = kind) = es.filter (·.1.kind = kind) := by
  unfold turns
  split
  · rw [List.filter_append, filter_kind_kind, filter_kind_kind]
    cases kind <;> simp
  · rfl

theorem turns_perm (rf : Bool) (es : List Numbered) : (turns rf es).Perm es := by
  unfold turns
  split
  · have hkinds : es.filter (·.1.kind = .producing) =
        es.filter fun e => !decide (e.1.kind = .reducing) := by
      refine List.filter_congr fun e _ => ?_
      cases e.1.kind <;> rfl
    rw [hkinds]
    exact List.filter_append_perm _ es
  · exact .refl _

/-- A merge goes to the end of the line of merges. -/
theorem insertBeforeProducing_append {rs ps : List Task} (hr : ∀ u ∈ rs, u.kind = .reducing)
    (hp : ∀ u ∈ ps, u.kind = .producing) :
    insertBeforeProducing t (rs ++ ps) = rs ++ t :: ps := by
  induction rs with
  | nil =>
    cases ps with
    | nil => rfl
    | cons u us => simp [insertBeforeProducing, hp u List.mem_cons_self]
  | cons u us ih =>
    have hu : u.kind ≠ .producing := by simp [hr u List.mem_cons_self]
    simp only [List.cons_append, insertBeforeProducing, hu, if_false]
    rw [ih fun v hv => hr v (List.mem_cons_of_mem _ hv)]

theorem pending_enqueue (hrf : s.reducingFirst = rf)
    (hq : s.pending = (turns rf es).map Prod.fst) (n : Nat) :
    (s.enqueue t).pending = (turns rf (es ++ [(t, n)])).map Prod.fst := by
  have hkind : ∀ k, ∀ u ∈ (es.filter (·.1.kind = k)).map Prod.fst, u.kind = k := by
    intro k u hu
    obtain ⟨e, he, rfl⟩ := List.mem_map.1 hu
    simpa using (List.mem_filter.1 he).2
  subst hrf
  unfold enqueue
  cases hfirst : s.reducingFirst with
  | false => simp [hq, hfirst, turns]
  | true =>
    rw [hfirst] at hq
    cases ht : t.kind with
    | producing => simp [hq, turns, ht]
    | reducing =>
      simp only [turns, if_true, List.map_append] at hq
      simp only [Bool.true_and, BEq.rfl, if_true, hq,
        insertBeforeProducing_append (hkind .reducing) (hkind .producing)]
      simp [turns, ht]

theorem filter_not_mem_take (hn : (es.map Prod.snd).Nodup) (n : Nat) :
    es.filter (fun e => e.2 ∉ (es.take n).map Prod.snd) = es.drop n := by
  have hsplit : (es.take n ++ es.drop n).map Prod.snd = es.map Prod.snd := by
    rw [List.take_append_drop]
  rw [← hsplit, List.map_append, List.nodup_append] at hn
  have htaken : (es.take n).filter (fun e => e.2 ∉ (es.take n).map Prod.snd) = [] := by
    refine List.filter_eq_nil_iff.2 fun e he => ?_
    rw [decide_eq_true_eq, not_not]
    exact List.mem_map_of_mem he
  have hleft : (es.drop n).filter (fun e => e.2 ∉ (es.take n).map Prod.snd) = es.drop n := by
    refine List.filter_eq_self.2 fun e he => ?_
    rw [decide_eq_true_eq]
    exact fun hmem => hn.2.2 _ hmem _ (List.mem_map_of_mem he) rfl
  conv_lhs => arg 2; rw [← List.take_append_drop n es]
  rw [List.filter_append, htaken, hleft, List.nil_append]

/-- Those whose turn has come are taken from the front. -/
theorem turns_deal (hn : (l.waiting.map Prod.snd).Nodup) (rf : Bool) (n dealt : Nat) :
    turns rf (l.deal rf n dealt).waiting = (turns rf l.waiting).drop n := by
  have hturns := (turns_perm rf l.waiting).map Prod.snd
  simp only [Line.deal, turns_filter]
  exact filter_not_mem_take (hturns.nodup_iff.2 hn) n

/-! ## Dispatch passes -/

/-- The tasks `ts` wait for a dispatch pass, and it makes the assignments `as`: the first task to
the first worker, with the first ticket, and so on, until there are no tasks or no workers left. If
no ticket is left before that, the pass fails, and the next task and the next worker are lost. -/
structure Served (ts : List Task) (s : Schedule) (as : List Assignment) (p : Pass) : Prop where
  tasks : as.map (fun a => (a.task.gist, a.task.timeout)) =
    (ts.take as.length).map fun t => (t.gist, t.timeout)
  workers : as.map Assignment.worker = s.idle.take as.length
  tickets : as.map Assignment.ticket = List.range' s.nextTicket as.length
  inFlight : p.schedule.inFlight = as.foldl (fun m a => m.insert a.task.name a) s.inFlight
  next : p.schedule.nextTicket = s.nextTicket + as.length
  rest : (p.assignments = some as ∧ as.length = min ts.length s.idle.length ∧
      p.schedule.pending = ts.drop as.length ∧ p.schedule.idle = s.idle.drop as.length) ∨
    (p.assignments = none ∧ as.length < min ts.length s.idle.length ∧
      p.schedule.pending = ts.drop (as.length + 1) ∧
      p.schedule.idle = s.idle.drop (as.length + 1))

theorem timeout_withAffinity (t : Task) (f : Fleet) : (withAffinity t f).1.timeout = t.timeout := by
  obtain ⟨work, h, _⟩ := withAffinity_eq t f
  rw [h]

theorem served_dispatchAll (now : Nat) (ts : List Task) (s : Schedule) (f : Fleet) :
    Served ts s (deal now ts s f) (dispatchAll now ts s f) := by
  induction ts generalizing s f with
  | nil => exact ⟨rfl, rfl, rfl, rfl, rfl, .inl ⟨rfl, by simp [deal], rfl, rfl⟩⟩
  | cons t ts ih =>
    cases hidle : s.idle with
    | nil =>
      simp only [dispatchAll, deal, hidle]
      exact ⟨rfl, rfl, rfl, rfl, rfl, .inl ⟨rfl, by simp [hidle], rfl, by rw [hidle]; rfl⟩⟩
    | cons w ws =>
      rcases next?_cases s with ⟨hnone, _⟩ | hsome
      · simp only [dispatchAll, deal, hidle, hnone]
        exact ⟨rfl, rfl, rfl, rfl, rfl, .inr ⟨rfl, by simp [hidle], rfl, by rw [hidle]; rfl⟩⟩
      · have h := ih ({ s with idle := ws, tickets := ⟨s.nextTicket + 1⟩ }.assign
          (withAffinity t f).1 w s.nextTicket now).1 (withAffinity t f).2
        simp only [dispatchAll, deal, hidle, hsome]
        refine ⟨?_, ?_, congrArg (s.nextTicket :: ·) h.tickets, h.inFlight, ?_, ?_⟩
        · simp only [assign, List.map_cons, List.length_cons, List.take_succ_cons,
            gist_withAffinity, timeout_withAffinity]
          exact congrArg _ h.tasks
        · rw [hidle]
          exact congrArg (w :: ·) h.workers
        · refine h.next.trans ?_
          show s.nextTicket + 1 + _ = s.nextTicket + (_ + 1)
          omega
        · rw [hidle, List.length_cons, List.length_cons, List.length_cons, Nat.add_min_add_right]
          rcases h.rest with ⟨hmade, hlen, hpending, hfree⟩ | ⟨hmade, hlen, hpending, hfree⟩
          · exact .inl ⟨by rw [hmade]; rfl, congrArg (· + 1) hlen, hpending, hfree⟩
          · exact .inr ⟨by rw [hmade]; rfl, Nat.succ_lt_succ hlen, hpending, hfree⟩

theorem served_dispatch (s : Schedule) (f : Fleet) (now : Nat) :
    ∃ as, Served s.pending s as (s.dispatch f now) :=
  ⟨_, served_dispatchAll now s.pending s f⟩

/-- What is kept under a name is the last assignment that a pass has made under it. -/
theorem find?_dispatch (s : Schedule) (f : Fleet) (now : Nat) (n : TaskName) :
    (s.dispatch f now).schedule.inFlight.find? n =
      ((deal now s.pending s f).filter fun a => a.task.name = n).getLast?.or
        (s.inFlight.find? n) := by
  have hflights : (s.dispatch f now).schedule.inFlight = _ :=
    (served_dispatchAll now s.pending s f).inFlight
  rw [hflights, OrderedMap.find?_foldl_insert_eq, Option.map_id']

theorem reducingFirst_dispatchAll (now : Nat) (ts : List Task) (s : Schedule) (f : Fleet) :
    (dispatchAll now ts s f).schedule.reducingFirst = s.reducingFirst := by
  induction ts generalizing s f with
  | nil => rfl
  | cons t ts ih =>
    simp only [dispatchAll]
    split
    · rfl
    · split
      · rfl
      · exact ih _ _

/-! ## The queue -/

/-- Whatever ends an assignment leaves the queue alone. -/
theorem pending_ended (s : Schedule) (n : TaskName) :
    (∀ w, (s.complete w n).1.pending = s.pending) ∧
    (∀ ticket now, (s.expire n ticket now).1.pending = s.pending) ∧
    ∀ ticket, (s.abort n ticket).1.pending = s.pending := by
  refine ⟨fun w => pending_complete rfl, fun ticket now => ?_, fun ticket => ?_⟩
  · unfold expire
    split
    · rfl
    · split <;> rfl
  · unfold abort
    split <;> rfl

theorem reducingFirst_perform (s : Schedule) (op : Operation) :
    (s.perform op).reducingFirst = s.reducingFirst := by
  cases op with
  | enqueue => simp only [perform, enqueue]; split <;> rfl
  | dispatch f now => exact reducingFirst_dispatchAll now s.pending s f
  | complete =>
    simp only [perform, complete]
    split
    · rfl
    · split
      · split <;> rfl
      · rfl
  | expire =>
    simp only [perform, expire]
    split
    · rfl
    · split <;> rfl
  | abort => simp only [perform, abort]; split <;> rfl
  | syncWorkers members =>
    obtain ⟨idle, h⟩ := syncWorkers_fst s members
    simp only [perform, h]
  | dropExecution | retime => rfl

theorem reducingFirst_after (past : List Operation) : (after rf past).reducingFirst = rf := by
  induction past with
  | nil => rfl
  | cons op past ih => exact (reducingFirst_perform _ op).trans ih

/-- Where a pass leaves the queue, and which tasks it has taken from it. -/
theorem Served.pending {as : List Assignment} {p : Pass} (h : Served ts s as p) :
    p.schedule.pending = ts.drop (ts.length - p.schedule.pending.length) ∧
    as.length ≤ ts.length - p.schedule.pending.length := by
  obtain ⟨n, hn, hle, hlen⟩ : ∃ n, p.schedule.pending = ts.drop n ∧ as.length ≤ n ∧
      n ≤ ts.length := by
    rcases h.rest with ⟨_, hlen, hpending, _⟩ | ⟨_, hlen, hpending, _⟩
    · exact ⟨_, hpending, Nat.le_refl _, by omega⟩
    · exact ⟨_, hpending, Nat.le_succ _, by omega⟩
  rw [hn, List.length_drop, Nat.sub_sub_self hlen]
  exact ⟨rfl, hle⟩

theorem kind_retimed (x : ExecutionName) (timeout : Nat) (t : Task) :
    (retimed x timeout t).kind = t.kind := by
  unfold retimed
  split <;> rfl

/-- An operation keeps the queue in line. -/
theorem perform_queue (hrf : s.reducingFirst = rf) (hn : (l.waiting.map Prod.snd).Nodup)
    (hq : s.pending = (turns rf l.waiting).map Prod.fst) (op : Operation) :
    (s.perform op).pending = (turns rf (l.perform rf s op).waiting).map Prod.fst := by
  cases op with
  | enqueue t => exact pending_enqueue hrf hq l.came
  | dispatch f now =>
    obtain ⟨as, hserved⟩ := served_dispatch s f now
    simp only [perform, Line.perform, turns_deal hn, List.map_drop, ← hq]
    exact hserved.pending.1
  | complete w n => exact ((pending_ended s n).1 w).trans hq
  | expire n ticket now => exact ((pending_ended s n).2.1 ticket now).trans hq
  | abort n ticket => exact ((pending_ended s n).2.2 ticket).trans hq
  | syncWorkers members => exact (pending_syncWorkers s members).trans hq
  | dropExecution x =>
    simp only [perform, Line.perform, dropExecution, turns_filter, hq, List.filter_map,
      Function.comp_def]
  | retime x timeout now =>
    simp only [perform, Line.perform, retime, hq, List.map_map, Function.comp_def,
      turns_map (g := fun e => (retimed x timeout e.1, e.2)) fun e => kind_retimed x timeout e.1]

/-! ## The numbers -/

/-- The tasks of the line are those that came, each with its number, and among the tasks of one kind
those that were dealt have the smaller numbers, in their order. -/
structure Ranked (arrived : List Task) (l : Line) : Prop where
  came : l.came = arrived.length
  arrivals : ((l.waiting ++ l.dealt ++ l.dropped).map fun e => (e.1.gist, e.2)).Perm
    (arrived.map Task.gist).zipIdx
  waiting : (l.waiting.map Prod.snd).Pairwise (· < ·)
  order : ∀ kind,
    (((l.dealt ++ l.waiting).filter (·.1.kind = kind)).map Prod.snd).Pairwise (· < ·)

variable {arrived : List Task}

theorem Ranked.lt (h : Ranked arrived l) {e : Numbered}
    (he : e ∈ l.waiting ++ l.dealt ++ l.dropped) : e.2 < arrived.length := by
  have hmem := h.arrivals.mem_iff.1 (List.mem_map_of_mem he)
  simpa using (List.mem_zipIdx hmem).2.1

theorem Ranked.nodup (h : Ranked arrived l) : (l.waiting.map Prod.snd).Nodup :=
  h.waiting.imp Nat.ne_of_lt

/-- Numbered tasks that are left in their order stay so. -/
theorem Ranked.less {l' : Line} (h : Ranked arrived l) (hcame : l'.came = l.came)
    (hall : (l'.waiting ++ l'.dealt ++ l'.dropped).Perm (l.waiting ++ l.dealt ++ l.dropped))
    (hwaiting : l'.waiting.Sublist l.waiting)
    (hdealt : ∀ kind, ((l'.dealt ++ l'.waiting).filter (·.1.kind = kind)).Sublist
      ((l.dealt ++ l.waiting).filter (·.1.kind = kind))) : Ranked arrived l' :=
  ⟨hcame.trans h.came, (hall.map _).trans h.arrivals, h.waiting.sublist (hwaiting.map _),
    fun kind => (h.order kind).sublist ((hdealt kind).map _)⟩

theorem Ranked.enqueue (h : Ranked arrived l) (t : Task) :
    Ranked (arrived ++ [t])
      { l with came := l.came + 1, waiting := l.waiting ++ [(t, l.came)] } := by
  refine ⟨by simp [h.came], ?_, ?_, fun kind => ?_⟩
  · have hnew : ((arrived ++ [t]).map Task.gist).zipIdx =
        (arrived.map Task.gist).zipIdx ++ [(t.gist, l.came)] := by
      simp [List.zipIdx_append, h.came]
    rw [hnew]
    refine List.Perm.trans ?_ (h.arrivals.append_right _)
    rw [List.perm_iff_count]
    intro e
    simp only [List.map_append, List.count_append, List.map_cons, List.map_nil]
    omega
  · rw [List.map_append, List.pairwise_append]
    refine ⟨h.waiting, List.pairwise_singleton _ _, ?_⟩
    intro n hn n' hn'
    obtain ⟨e, he, rfl⟩ := List.mem_map.1 hn
    rw [List.mem_singleton.1 hn', h.came]
    exact h.lt (List.mem_append_left _ (List.mem_append_left _ he))
  · rw [← List.append_assoc, List.filter_append, List.map_append, List.pairwise_append]
    refine ⟨h.order kind, ?_, ?_⟩
    · exact ((List.pairwise_singleton _ _).sublist List.filter_sublist).map _ fun _ _ h => h
    · intro n hn n' hn'
      obtain ⟨e, he, rfl⟩ := List.mem_map.1 hn
      obtain ⟨e', he', rfl⟩ := List.mem_map.1 hn'
      rw [List.mem_singleton.1 (List.mem_of_mem_filter he'), h.came]
      have he := List.mem_of_mem_filter he
      refine h.lt ?_
      simp only [List.mem_append] at he ⊢
      tauto

theorem Ranked.deal (h : Ranked arrived l) (n dealt : Nat) :
    Ranked arrived (l.deal rf n dealt) := by
  let out := (turns rf l.waiting).take n
  have hturns := turns_deal h.nodup rf n dealt
  have hsplit : out ++ (turns rf l.waiting).drop n = turns rf l.waiting := List.take_append_drop ..
  refine h.less rfl ?_ List.filter_sublist fun kind => ?_
  · -- those taken out and those left are those that waited
    have hleft := (turns_perm rf (l.deal rf n dealt).waiting).symm
    have hbefore := turns_perm rf l.waiting
    rw [hturns] at hleft
    rw [← hsplit] at hbefore
    rw [List.perm_iff_count] at hleft hbefore ⊢
    intro e
    have hleft := hleft e
    have hbefore := hbefore e
    have hout : (out.take dealt ++ out.drop dealt).count e = out.count e := by
      rw [List.take_append_drop]
    simp only [Line.deal, List.count_append, out] at *
    omega
  · rw [List.filter_append, List.filter_append, ← turns_kind rf l.waiting,
      ← turns_kind rf (l.deal rf n dealt).waiting, hturns]
    simp only [Line.deal, List.filter_append, List.append_assoc]
    refine List.Sublist.append_left ?_ _
    rw [← List.filter_append]
    refine List.Sublist.filter _ ?_
    conv_rhs => rw [← hsplit]
    exact (List.take_sublist dealt out).append_right _

theorem Ranked.dropExecution (h : Ranked arrived l) (x : ExecutionName) :
    Ranked arrived { l with
      waiting := l.waiting.filter fun e => e.1.execution ≠ x
      dropped := l.dropped ++ l.waiting.filter fun e => e.1.execution = x } := by
  refine h.less rfl ?_ List.filter_sublist fun kind => ?_
  · have hpart := List.filter_append_perm (fun e : Numbered => decide (e.1.execution = x)) l.waiting
    rw [List.perm_iff_count] at hpart ⊢
    intro e
    have := hpart e
    simp only [List.count_append, decide_not] at this ⊢
    omega
  · exact (List.filter_sublist.append_left _).filter _

theorem Ranked.retime (h : Ranked arrived l) (x : ExecutionName) (timeout : Nat) :
    Ranked arrived { l with waiting := l.waiting.map fun e => (retimed x timeout e.1, e.2) } := by
  refine ⟨h.came, ?_, ?_, fun kind => ?_⟩
  · simpa [gist_retimed, Function.comp_def] using h.arrivals
  · simpa [Function.comp_def] using h.waiting
  · have := h.order kind
    simpa [List.filter_append, List.filter_map, Function.comp_def, kind_retimed] using this

theorem Ranked.perform (h : Ranked arrived l) (s : Schedule) (op : Operation) :
    Ranked (arrived ++ op.entered) (l.perform rf s op) := by
  have hsame : Ranked (arrived ++ []) l := by rwa [List.append_nil]
  cases op with
  | enqueue t => exact h.enqueue t
  | dispatch f now => exact hsame.deal _ _
  | dropExecution x => exact hsame.dropExecution x
  | retime x timeout now => exact hsame.retime x timeout
  | complete | expire | abort | syncWorkers => exact hsame

/-! ## Any operations -/

/-- Where everything is after the operations, by the numbers. -/
structure InLine (rf : Bool) (past : List Operation) : Prop where
  queue : (after rf past).pending = (turns rf (line rf past).waiting).map Prod.fst
  ranked : Ranked (entered past).reverse (line rf past)

theorem after_inLine (rf : Bool) (past : List Operation) : InLine rf past := by
  induction past with
  | nil =>
    refine ⟨?_, rfl, .refl _, .nil, fun kind => .nil⟩
    cases rf <;> rfl
  | cons op past ih =>
    refine ⟨perform_queue (reducingFirst_after past) ih.ranked.nodup ih.queue op, ?_⟩
    have hentered : (entered (op :: past)).reverse = (entered past).reverse ++ op.entered := by
      cases op <;> simp [entered, Operation.entered]
    rw [hentered]
    exact ih.ranked.perform _ op

/-- No producing task is given away while a merge waits. -/
theorem merges_first {as : List Assignment} {p : Pass}
    (hq : s.pending = (turns true es).map Prod.fst) (hserved : Served s.pending s as p) {i : Nat}
    {a : Assignment} (ha : as[i]? = some a) (hkind : a.task.kind = .producing) :
    ∀ t ∈ s.pending.drop i, t.kind = .producing := by
  obtain ⟨hi, -⟩ := List.getElem?_eq_some_iff.1 ha
  obtain ⟨u, hu, hgist⟩ : ∃ u, s.pending[i]? = some u ∧ a.task.gist = u.gist := by
    have htask := congrArg (fun l => l[i]?) hserved.tasks
    simp only [List.getElem?_map, ha, Option.map_some, List.getElem?_take_of_lt hi] at htask
    obtain ⟨u, hu, heq⟩ := Option.map_eq_some_iff.1 htask.symm
    exact ⟨u, hu, (congrArg Prod.fst heq).symm⟩
  have hu' : u.kind = .producing := by
    rw [← Task.kind_gist, ← hgist, Task.kind_gist, hkind]
  let rs := (es.filter (·.1.kind = .reducing)).map Prod.fst
  let ps := (es.filter (·.1.kind = .producing)).map Prod.fst
  have hsplit : s.pending = rs ++ ps := by
    rw [hq, turns, if_pos rfl, List.map_append]
  -- the task stands behind all merges, and so does whatever stands behind it
  have hle : rs.length ≤ i := by
    false_or_by_contra
    rename_i hlt
    rw [hsplit, List.getElem?_append_left (Nat.lt_of_not_le hlt)] at hu
    obtain ⟨e, he, rfl⟩ := List.mem_map.1 (List.mem_of_getElem? hu)
    simp [hu'] at he
  intro t ht
  rw [hsplit, List.drop_append, List.drop_eq_nil_of_le hle, List.nil_append] at ht
  obtain ⟨e, he, rfl⟩ := List.mem_map.1 (List.mem_of_mem_drop ht)
  simpa using (List.mem_filter.1 he).2

/-- What a dispatch pass does to the line. -/
structure Passed (rf : Bool) (past : List Operation) (f : Fleet) (now : Nat)
    (as : List Assignment) : Prop where
  served : Served (after rf past).pending (after rf past) as ((after rf past).dispatch f now)
  dealt : (line rf (.dispatch f now :: past)).dealt =
    (line rf past).dealt ++ (turns rf (line rf past).waiting).take as.length
  kept : ((after rf past).dispatch f now).assignments.isSome = true →
    (line rf (.dispatch f now :: past)).dropped = (line rf past).dropped
  merges : rf = true → ∀ i a, as[i]? = some a → a.task.kind = .producing →
    ∀ t ∈ (after rf past).pending.drop i, t.kind = .producing

theorem InLine.passed {past : List Operation} (h : InLine rf past) (f : Fleet) (now : Nat) :
    ∃ as, Passed rf past f now as := by
  obtain ⟨as, hserved⟩ := served_dispatch (after rf past) f now
  have hn : ((after rf past).dispatch f now).schedule.nextTicket - (after rf past).nextTicket =
      as.length := by
    rw [hserved.next, Nat.add_sub_cancel_left]
  refine ⟨as, hserved, ?_, fun hsome => ?_, ?_⟩
  · simp only [line, Line.perform, Line.deal, hn, List.take_take,
      Nat.min_eq_left hserved.pending.2]
  · obtain ⟨hlen, hpending⟩ : as.length = min (after rf past).pending.length
        (after rf past).idle.length ∧ ((after rf past).dispatch f now).schedule.pending =
        (after rf past).pending.drop as.length := by
      rcases hserved.rest with ⟨_, hlen, hpending, _⟩ | ⟨hnone, _⟩
      · exact ⟨hlen, hpending⟩
      · simp [hnone] at hsome
    have hout : (after rf past).pending.length -
        ((after rf past).dispatch f now).schedule.pending.length = as.length := by
      rw [hpending, List.length_drop]
      omega
    simp only [line, Line.perform, Line.deal, hn, hout]
    rw [List.drop_eq_nil_of_le (List.length_take_le _ _), List.append_nil]
  · rintro rfl i a ha hkind
    exact merges_first h.queue hserved ha hkind

structure FirstCome (rf : Bool) (past : List Operation) : Prop where
  queue : (after rf past).pending = (turns rf (line rf past).waiting).map Prod.fst
  waiting : ((line rf past).waiting.map Prod.snd).Pairwise (· < ·)
  arrivals : (((line rf past).waiting ++ (line rf past).dealt ++ (line rf past).dropped).map
    fun e => (e.1.gist, e.2)).Perm ((entered past).reverse.map Task.gist).zipIdx
  order : ∀ kind, (((line rf past).dealt.filter (·.1.kind = kind)).map Prod.snd).Pairwise (· < ·)
  passes : ∀ f now, ∃ as, Passed rf past f now as

/-- After any operations the queue holds, in the order in which they came, the tasks that were
neither dealt nor dropped, merges before producing tasks if merges go first. So the tasks of one
kind are dealt in the order in which they came, each pass takes the first tasks to the first
workers, and then a producing task goes only when no merge waits. -/
theorem first_come_first_served (reducingFirst : Bool) (past : List Operation) :
    FirstCome reducingFirst past := by
  have h := after_inLine reducingFirst past
  refine ⟨h.queue, h.ranked.waiting, h.ranked.arrivals, fun kind => ?_, h.passed⟩
  have hsub := (List.sublist_append_left (line reducingFirst past).dealt
    (line reducingFirst past).waiting).filter fun e => decide (e.1.kind = kind)
  exact (h.ranked.order kind).sublist (hsub.map _)

example : (line true sampleOperations).dealt.map Prod.snd = [3, 0, 1, 5, 4] ∧
    (line true sampleOperations).waiting.map Prod.snd = [6] ∧
    (line true sampleOperations).dropped.map Prod.snd = [2] := by decide +kernel

end Schedule
end RenderFarm
