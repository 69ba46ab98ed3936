import RenderFarm.Proofs.Execution.Ending
import RenderFarm.Proofs.Execution.Timeouts

/-!
# RenderFarm.Proofs.Execution.Phases

The phase of an execution, and what it says of the rest of the state.

* `Phase.Moves p p'`: the changes of phase that there are.
* `Shaped e`: the final merge and the final phase come together, and an execution that fetches has
  nothing yet. It holds in the middle of a call as well.
* `Rested e`: in addition, what holds once the execution has moved forward: no full group waits, and
  an execution that fetches runs a task.
* `Ready e past change`: what the execution may rely on in between, when it moves forward.
* `phases_move`: the moves and the shape, in every run from the start on.
-/

namespace RenderFarm

inductive Phase.Moves : Phase → Phase → Prop where
  | fetched : Moves .fetching .producing
  | merged : Moves .producing .finalReducing
  | reproduced : Moves .finalReducing .producing
  | finished : Moves .finalReducing .finished
  | failed {p : Phase} : p.isTerminal = false → Moves p .failed

namespace Execution

/-- An execution that fetches: its producing tasks, of which at most one runs, have all failed. -/
structure Bare (e : Execution) : Prop where
  fetches : e.fetches = true
  finished : e.finished = e.failures
  producing : e.producing.length ≤ 1
  unreduced : e.unreduced = []
  merging : e.merging.entries = []
  reduced : e.reduced = []

structure Shaped (e : Execution) : Prop where
  last : e.phase = .finalReducing ↔ e.finalMerge.isSome = true
  fetching : e.phase = .fetching → Bare e

structure Rested (e : Execution) : Prop extends Shaped e where
  waiting : e.isTerminal = false → e.unreduced.length < e.groupSize
  single : e.phase = .fetching → e.producing.length = 1

variable {e e' : Execution} {m l : Nat} {ts : List Task}

theorem Shaped.no_last (h : Shaped e) (hp : e.phase ≠ .finalReducing) : e.finalMerge = none := by
  simpa using mt h.last.2 hp

theorem Shaped.last_some (h : Shaped e) {n : TaskName} {g : MergeGroup}
    (hf : e.finalMerge = some (n, g)) : e.phase = .finalReducing :=
  h.last.2 (by simp [hf])

theorem Shaped.not_fetching (h : Shaped e) {n : TaskName} {g : MergeGroup}
    (hg : e.merging.find? n = some g) : e.phase ≠ .fetching := by
  intro hp
  have := (OrderedMap.entries_perm_erase hg).length_eq
  simp [(h.fetching hp).merging] at this

theorem Shaped.producing (h : Shaped e) (ht : e.isTerminal = false) (hf : e.finalMerge = none)
    (hp : e.phase ≠ .fetching) : e.phase = .producing := by
  have hl : e.phase ≠ .finalReducing := fun hl => by simpa [hf] using h.last.1 hl
  unfold isTerminal at ht
  cases hphase : e.phase with
  | fetching => exact absurd hphase hp
  | producing => rfl
  | finalReducing => exact absurd hphase hl
  | finished | failed => simp [hphase, Phase.isTerminal] at ht

theorem Phase.fetched_ne_fetching {p : Phase} : fetched p ≠ .fetching := by
  cases p <;> simp [fetched]

theorem Phase.fetched_eq_finalReducing {p : Phase} :
    fetched p = .finalReducing ↔ p = .finalReducing := by
  cases p <;> simp [fetched]

/-- All units are still to come. -/
theorem Bare.remaining (h : Bare e) (hb : Balanced m l e) (hf : e.finalMerge = none)
    (hone : 1 ≤ e.parallel) : e.finished < e.target := by
  have hheld := hb.units_held
  simp [holdings, lastInputs, hf, h.unreduced, h.reduced, OrderedMap.values, h.merging] at hheld
  omega

/-! ## Moving forward -/

/-- The final merge is issued only when nothing else is going on, an intermediate merge that has
just been issued included. -/
theorem Issues.phase (h : Issues e ts e') :
    e'.phase = e.phase ∧ e'.finalMerge = e.finalMerge ∨
    e'.phase = .finalReducing ∧ e'.finalMerge.isSome = true ∧ e.finalMerge = none ∧
      e.target ≤ e.finished ∧ e.producing = [] ∧ e.unreduced = [] ∧ e.merging.entries = [] := by
  induction h with
  | nothing | produce => exact .inl ⟨rfl, rfl⟩
  | last hf ht hp hm hu => exact .inr ⟨rfl, rfl, hf, ht, hp, hu, hm⟩
  | merge _ _ _ ih =>
    rcases ih with hsame | ⟨_, _, _, _, _, _, hm⟩
    · exact .inl hsame
    · exact absurd (OrderedMap.isEmpty_iff.2 hm) (by simp [merging_withMerge_ne])

theorem SameTerms.groupSize (h : SameTerms e e') : e'.groupSize = e.groupSize := by
  simp [Execution.groupSize, h.parallel]

theorem unreduced_mergeWaiting (e : Execution) :
    e.mergeWaiting.1.unreduced.length < e.groupSize := by
  unfold mergeWaiting
  split
  · exact e.groupSize_pos
  · rename_i h
    simp only [Bool.or_eq_true, decide_eq_true_eq, not_or] at h
    exact Nat.lt_of_not_le h.1

/-- An execution that moves forward leaves no full group waiting. -/
theorem unreduced_advance (ht : e.isTerminal = false) (hf : e.finalMerge = none)
    (hle : e.failures ≤ e.failureLimit) (ctx : Context) :
    (e.advance ctx).1.unreduced = e.mergeWaiting.1.unreduced := by
  simp only [advance, ht, hf, Nat.not_lt.2 hle, Bool.false_eq_true, if_false, Option.isSome_none]
  split
  · split <;> rfl
  · rfl

/-- An execution that fetches issues a producing task if none is outstanding, and nothing else. -/
theorem advance_bare (h : Bare e) (hp : e.phase = .fetching) (hf : e.finalMerge = none)
    (hle : e.failures ≤ e.failureLimit) (hlt : e.finished < e.target) (ctx : Context) :
    e.advance ctx = e.startProducing (1 - e.producing.length) := by
  have ht : e.isTerminal = false := by simp [isTerminal, hp, Phase.isTerminal]
  have hwaiting : e.mergeWaiting = (e, []) := by
    have := e.groupSize_pos
    simp [mergeWaiting, h.unreduced]
    omega
  have hdone : e.producingDone = false := by
    simp [producingDone, Nat.not_le.2 hlt]
  have hmissing : e.missing ctx = 1 - e.producing.length := by
    have hone := h.producing
    simp only [missing, throttled, h.fetches, hp, BEq.rfl, Bool.true_or, Bool.and_self, if_true]
    cases hlist : e.producing with
    | nil => simp; omega
    | cons n rest => simp
  simp [advance, ht, hf, Nat.not_lt.2 hle, hwaiting, hdone, hmissing]

theorem Bare.started (h : Bare e) (hp : e.phase = .fetching) (hf : e.finalMerge = none) :
    Rested (e.startProducing (1 - e.producing.length)).1 := by
  have hone := h.producing
  have hlen : (e.startProducing (1 - e.producing.length)).1.producing.length = 1 := by
    simp only [startProducing, List.length_append, List.length_map, List.length_range]
    omega
  refine ⟨⟨?_, fun _ => ?_⟩, fun _ => ?_, fun _ => hlen⟩
  · simp [startProducing, hp, hf]
  · exact ⟨h.fetches, h.finished, Nat.le_of_eq hlen, h.unreduced, h.merging, h.reduced⟩
  · have hunreduced : (e.startProducing (1 - e.producing.length)).1.unreduced = [] := h.unreduced
    rw [hunreduced]
    exact groupSize_pos _

theorem Shaped.rested (h : Shaped e) (ht : e.isTerminal = true) : Rested e := by
  refine ⟨h, fun hrun => ?_, fun hp => ?_⟩
  · cases ht.symm.trans hrun
  · simp [isTerminal, hp, Phase.isTerminal] at ht

theorem Shaped.failed (ht : e.phase = .failed) (hf : e.finalMerge = none) : Shaped e :=
  ⟨by simp [ht, hf], fun hp => absurd (ht.symm.trans hp) (by simp)⟩

theorem advance_rested (h : Shaped e) (hs : Sound e) (hb : Balanced m l e)
    (hone : 1 ≤ e.parallel) (ht : e.isTerminal = false)
    (hl : e.failureLimit < e.failures → e.finalMerge = none) (ctx : Context) :
    Rested (e.advance ctx).1 := by
  rcases advance_outcome ht ctx with ⟨reason, hh, ha⟩ | ⟨hle, ts, e', ha, hi, _⟩
  · rw [ha]
    have hnone := hl (hb.hopeless hone hh).1
    have hfailed : Shaped (e.failWith reason ctx.now).1 := .failed rfl hnone
    exact hfailed.rested rfl
  cases hf : e.finalMerge with
  | some f =>
    -- the final merge is waited for: nothing is issued
    rw [ha]
    have hp : e.phase = .finalReducing := h.last_some hf
    have hu := (hb.last (by simp [hf])).2.2.1
    cases hi with
    | nothing =>
      refine ⟨h, fun _ => ?_, fun hp' => ?_⟩
      · rw [hu]
        exact e.groupSize_pos
      · cases hp.symm.trans hp'
    | merge hnone | last hnone | produce hnone => cases hnone.symm.trans hf
  | none =>
  by_cases hp : e.phase = .fetching
  · have hbare := h.fetching hp
    rw [advance_bare hbare hp hf hle (hbare.remaining hb hf hone)]
    exact hbare.started hp hf
  have hwaiting := unreduced_mergeWaiting e
  rw [← unreduced_advance ht hf hle ctx, ha] at hwaiting
  rw [ha]
  have hphase := hi.phase
  have hnot : e'.phase ≠ .fetching := by
    rcases hphase with ⟨hsame, _⟩ | ⟨hlast, _⟩
    · rwa [hsame]
    · simp [hlast]
  refine ⟨⟨?_, fun hp' => absurd hp' hnot⟩, fun _ => ?_, fun hp' => absurd hp' hnot⟩
  · rcases hphase with ⟨hsame, hlast⟩ | ⟨hlast, hsome, _⟩
    · rw [hsame, hlast]
      exact h.last
    · simp [hlast, hsome]
  · rw [(hi.accounts hs).terms.groupSize]
    exact hwaiting

/-! ## Calls -/

section Calls

variable {call : Call} {lost missed : Nat} {ended : List TaskName}
  {change : Execution × List Action} {next : Option Context}

theorem Step.shaped (hstep : Step e call lost missed ended change next) (h : Shaped e)
    (hb : Balanced m l e) : Shaped change.1 := by
  cases hstep with
  | ignored | started => exact h
  | fetched _ hp | produced _ hp =>
    have hnone := hb.no_last_of_producing hp
    exact ⟨Phase.fetched_eq_finalReducing.trans h.last,
      fun hp => absurd hp Phase.fetched_ne_fetching⟩
  | merged _ _ hg | abandoned _ _ hg | retried _ _ hg =>
    exact ⟨h.last, fun hp => absurd hp (h.not_fetching hg)⟩
  | completed | finalAbandoned =>
    exact ⟨by simp [finishWith, failWith], fun hp => by cases hp⟩
  | cutShort => exact ⟨by simp, fun hp => by cases hp⟩
  | missed _ hp =>
    refine ⟨h.last, fun hphase => ?_⟩
    have hbare := h.fetching hphase
    exact ⟨hbare.fetches, congrArg (· + 1) hbare.finished,
      Nat.le_trans (List.length_erase_le) hbare.producing, hbare.unreduced, hbare.merging,
      hbare.reduced⟩
  | finalRetried _ _ _ hf =>
    have hp := h.last_some hf
    exact ⟨by simp [hp], fun hp' => by cases hp.symm.trans hp'⟩

/-- The end of a task, or the arrival of the resources, may change the phase in one way. -/
theorem Step.moves (hstep : Step e call lost missed ended change next) (h : Shaped e) :
    change.1.phase = e.phase ∨ Phase.Moves e.phase change.1.phase := by
  cases hstep with
  | ignored | started | merged | missed | retried | abandoned | finalRetried => exact .inl rfl
  | fetched | produced =>
    cases hp : e.phase with
    | fetching => exact .inr .fetched
    | producing | finalReducing | finished | failed => exact .inl rfl
  | completed _ _ _ hf =>
    rw [h.last_some hf]
    exact .inr .finished
  | cutShort _ _ _ hf =>
    rw [h.last_some hf]
    exact .inr .reproduced
  | finalAbandoned ht => exact .inr (.failed ht)

/-- Where all that was asked for is over and nothing waits, no report has changed the phase. -/
theorem Step.phase {ctx : Context} (hstep : Step e call lost missed ended change (some ctx))
    (hb : Balanced m l e) (ht : change.1.target ≤ change.1.finished) (hp : change.1.producing = [])
    (hu : change.1.unreduced = []) : change.1.phase = e.phase := by
  cases hstep with
  | fetched _ hmem =>
    have hp : e.producing = [] := hp
    simp [hp] at hmem
  | produced => simp at hu
  | cutShort _ _ _ _ hlt =>
    have hroom := hb.room
    dsimp only at ht
    omega
  | started | merged | missed | retried | abandoned => rfl

theorem Step.exhausted {ctx : Context} (hstep : Step e call lost missed ended change (some ctx))
    (hb : Balanced m l e) (hle : e.failures ≤ e.failureLimit)
    (hl : change.1.failureLimit < change.1.failures) : change.1.finalMerge = none := by
  cases hstep with
  | missed _ hp => exact hb.no_last_of_producing hp
  | _ => exact absurd hl (Nat.not_lt.2 hle)

theorem Step.fetching (hstep : Step e call lost missed ended change next) (h : Shaped e)
    (hover : e.overBy call = ended) (hp : change.1.phase = .fetching) :
    e.phase = .fetching ∧ e.successBy call = none ∧ tasksOf change.2 = [] := by
  cases hstep with
  | ignored => exact ⟨hp, successBy_none hover, rfl⟩
  | started | missed => exact ⟨hp, rfl, rfl⟩
  | fetched | produced => exact absurd hp Phase.fetched_ne_fetching
  | merged _ _ hg | retried _ _ hg | abandoned _ _ hg => exact absurd hp (h.not_fetching hg)
  | completed | cutShort | finalAbandoned => cases hp
  | finalRetried _ _ _ hf => cases (h.last_some hf).symm.trans hp

end Calls

/-! ## Runs -/

/-- While an execution fetches, none of its tasks has succeeded, one producing task is in flight,
and no other task has ever been issued than producing ones. -/
structure Seeking (e : Execution) (past : List Call) : Prop where
  fetches : (e.after past).fetches = true
  unsuccessful : ∀ call earlier, call :: earlier <:+ past → (e.after earlier).successBy call = none
  alone : ∃ n, (e.after past).producing = [n] ∧ (e.after past).outstanding = [n]
  issued : ∀ t ∈ e.issued past, t.kind = .producing

/-- The phase of an execution in a run, and what it says of the rest of the state. -/
structure Phases (e : Execution) (past : List Call) : Prop where
  moves : ∀ call earlier, call :: earlier <:+ past →
    (e.after (call :: earlier)).phase = (e.after earlier).phase ∨
    Phase.Moves (e.after earlier).phase (e.after (call :: earlier)).phase
  last : (e.after past).phase = .finalReducing ↔ (e.after past).finalMerge.isSome = true
  settled : (e.after past).phase = .finalReducing →
    (e.after past).producing = [] ∧ (e.after past).merging.entries = [] ∧
    (e.after past).unreduced = [] ∧ (e.after past).reduced = []
  fetching : (e.after past).phase = .fetching → Seeking e past
  waiting : (e.after past).isTerminal = false →
    (e.after past).unreduced.length < (e.after past).groupSize ∧
    (e.after past).failures ≤ (e.after past).failureLimit

section Respond

variable {past : List Call} {call : Call} {ended : List TaskName}
  {change : Execution × List Action} {ctx : Context}

/-- What an execution may rely on when it moves forward. -/
structure Ready (e : Execution) (past : List Call) (change : Execution) : Prop extends
    Shaped change where
  sound : Sound change
  books : Balanced (e.missed past) (e.lost past) change
  units : 1 ≤ change.parallel
  running : change.isTerminal = false
  exhausted : change.failureLimit < change.failures → change.finalMerge = none

theorem Ready.advance (h : Ready e past e') (ctx : Context) : Rested (e'.advance ctx).1 :=
  advance_rested h.toShaped h.sound h.books h.units h.running h.exhausted ctx

/-- An execution that fetches after it has moved forward did so before, and has issued nothing but
producing tasks. -/
theorem Ready.fetching_advance (h : Ready e past e') {ctx : Context}
    (hp : (e'.advance ctx).1.phase = .fetching) :
    e'.phase = .fetching ∧ ∀ t ∈ tasksOf (e'.advance ctx).2, t.kind = .producing := by
  rcases advance_cases h.running ctx with ⟨reason, ha⟩ | ⟨hle, ts, e'', ha, hi, _⟩
  · rw [ha] at hp
    cases hp
  have hphase : e'.phase = .fetching := by
    rw [ha] at hp
    rcases hi.phase with ⟨hsame, _⟩ | ⟨hlast, _⟩
    · exact hsame.symm.trans hp
    · cases hlast.symm.trans hp
  have hf := h.no_last (by simp [hphase])
  have hbare := h.fetching hphase
  refine ⟨hphase, ?_⟩
  rw [advance_bare hbare hphase hf hle (hbare.remaining h.books hf h.units)]
  simp only [startProducing, tasksOf_enqueue]
  intro t ht
  obtain ⟨i, _, rfl⟩ := List.mem_map.1 ht
  rfl

variable (h : Running e past) (hs : Shaped (e.after past)) (hone : 1 ≤ e.parallel)

include h hs hone

theorem Step.ready
    (hstep : Step (e.after past) call ((e.after past).lostBy call) ((e.after past).missedBy call)
      ended change (some ctx)) (hover : (e.after past).overBy call = ended) :
    Ready e (call :: past) change.1 := by
  subst hover
  have hterms := h.terms.trans (hstep.accounts h.sound).terms
  have hle : (e.after past).failures ≤ (e.after past).failureLimit := by
    rw [h.terms.failureLimit]
    exact h.failures
  refine ⟨hstep.shaped hs h.books, (hstep.accounts h.sound).sound h.sound,
    (hstep.books h.sound h.books).running hstep.running, ?_, hstep.running,
    hstep.exhausted h.books hle⟩
  rw [hterms.parallel]
  exact hone

theorem after_moves (ht : (e.after past).isTerminal = false) :
    (e.after (call :: past)).phase = (e.after past).phase ∨
    Phase.Moves (e.after past).phase (e.after (call :: past)).phase := by
  obtain ⟨change, next, hstep, heq⟩ := respond_step (e.after past) call
  rw [after, heq]
  cases next with
  | none => exact hstep.moves hs
  | some ctx =>
    have hready := hstep.ready h hs hone rfl
    simp only [proceed, andAdvance]
    rcases advance_issues change.1 ctx with ⟨reason, ha⟩ | ⟨ts, e', ha, hi⟩
    · rw [ha]
      exact .inr (.failed ht)
    rw [ha]
    rcases hi.phase with ⟨hsame, _⟩ | ⟨hlast, _, hf, hdone, hp, hu, _⟩
    · simp only [hsame]
      exact hstep.moves hs
    · have hchange := hready.producing hready.running hf fun hp =>
        absurd ((hready.fetching hp).remaining hready.books hf hready.units)
          (Nat.not_lt.2 hdone)
      rw [← hstep.phase h.books hdone hp hu, hchange]
      simp only [hlast]
      exact .inr .merged

theorem after_rests (hr : Rested (e.after past)) : Rested (e.after (call :: past)) := by
  obtain ⟨change, next, hstep, heq⟩ := respond_step (e.after past) call
  rw [after, heq]
  cases next with
  | some ctx => exact (hstep.ready h hs hone rfl).advance ctx
  | none =>
    have hshaped := hstep.shaped hs h.books
    generalize (e.after past).lostBy call = lost at hstep
    generalize (e.after past).missedBy call = missed at hstep
    generalize (e.after past).overBy call = ended at hstep
    cases hstep with
    | ignored => exact hr
    | finalRetried => exact ⟨hshaped, hr.waiting, hr.single⟩
    | completed | finalAbandoned => exact hshaped.rested rfl

/-- A call that leaves an execution fetching found it fetching, reports no success, and leads to
producing tasks at most. -/
theorem after_fetching (hp : (e.after (call :: past)).phase = .fetching) :
    (e.after past).phase = .fetching ∧ (e.after past).successBy call = none ∧
    ∀ t ∈ tasksOf ((e.after past).respond call).2, t.kind = .producing := by
  obtain ⟨change, next, hstep, heq⟩ := respond_step (e.after past) call
  rw [after, heq] at hp
  rw [heq]
  cases next with
  | none =>
    obtain ⟨hbefore, hsuccess, hnone⟩ := hstep.fetching hs rfl hp
    refine ⟨hbefore, hsuccess, ?_⟩
    simp only [proceed, hnone]
    exact List.forall_mem_nil _
  | some ctx =>
    obtain ⟨hchange, hproducing⟩ := (hstep.ready h hs hone rfl).fetching_advance hp
    obtain ⟨hbefore, hsuccess, hnone⟩ := hstep.fetching hs rfl hchange
    refine ⟨hbefore, hsuccess, ?_⟩
    simp only [proceed, andAdvance, tasksOf_append, hnone]
    exact hproducing

end Respond

theorem moves_call {e : Execution} (h : Unbegun e) (call : Call) {past : List Call}
    (hs : Shaped (e.after past)) :
    (e.after (call :: past)).phase = (e.after past).phase ∨
    Phase.Moves (e.after past).phase (e.after (call :: past)).phase := by
  cases ht : (e.after past).isTerminal with
  | true =>
    rw [after, respond_terminal ht]
    exact .inl rfl
  | false => exact after_moves (after_running h ht) hs h.units ht

section Runs

variable (h : Unbegun e) (hs : Shaped e)

include h hs

theorem after_rested (ctx : Context) (past : List Call) :
    Rested (e.after (past ++ [.start ctx])) := by
  induction past with
  | nil =>
    have hrunning : Running e [] := after_running h h.running
    have hstep : Step e (.start ctx) 0 0 [] (e, []) (some ctx) := .started h.running
    exact (hstep.ready hrunning hs h.units rfl).advance ctx
  | cons call past ih =>
    cases ht : (e.after (past ++ [.start ctx])).isTerminal with
    | true =>
      rw [List.cons_append, after, respond_terminal ht]
      exact ih
    | false => exact after_rests (after_running h ht) ih.toShaped h.units ih

theorem phases_moves (ctx : Context) (past : List Call) :
    ∀ call earlier, call :: earlier <:+ past ++ [.start ctx] →
      (e.after (call :: earlier)).phase = (e.after earlier).phase ∨
      Phase.Moves (e.after earlier).phase (e.after (call :: earlier)).phase := by
  induction past with
  | nil => exact forall_calls_cons.2 ⟨moves_call h _ hs, forall_calls_nil⟩
  | cons call past ih =>
    exact forall_calls_cons.2 ⟨moves_call h call (after_rested h hs ctx past).toShaped, ih⟩

/-- An execution that still fetches has done so from the start, and nothing else has come of it. -/
theorem phases_fetching (ctx : Context) {past : List Call}
    (hp : (e.after (past ++ [.start ctx])).phase = .fetching) :
    (∀ call earlier, call :: earlier <:+ past ++ [.start ctx] →
      (e.after earlier).successBy call = none) ∧
    ∀ t ∈ e.issued (past ++ [.start ctx]), t.kind = .producing := by
  induction past with
  | nil =>
    have hrunning : Running e [] := after_running h h.running
    obtain ⟨_, hsuccess, hissued⟩ := after_fetching hrunning hs h.units hp
    refine ⟨forall_calls_cons.2 ⟨hsuccess, forall_calls_nil⟩, ?_⟩
    simpa [issued, emitted] using hissued
  | cons call past ih =>
    have hrested := after_rested h hs ctx past
    have ht : (e.after (past ++ [.start ctx])).isTerminal = false := by
      refine Bool.eq_false_iff.2 fun ht => ?_
      have hsame : (e.after (call :: (past ++ [.start ctx]))).phase
          = (e.after (past ++ [.start ctx])).phase := by
        rw [after, respond_terminal ht]
      rw [isTerminal, ← hsame, ← List.cons_append, hp] at ht
      cases ht
    obtain ⟨hbefore, hsuccess, hissued⟩ := after_fetching (after_running h ht) hrested.toShaped
      h.units hp
    obtain ⟨hearlier, hproducing⟩ := ih hbefore
    refine ⟨forall_calls_cons.2 ⟨hsuccess, hearlier⟩, ?_⟩
    simp only [List.cons_append, issued, emitted, tasksOf_append, List.forall_mem_append]
    exact ⟨hproducing, hissued⟩

theorem phases_of_unbegun (ctx : Context) (past : List Call) :
    Phases e (past ++ [.start ctx]) := by
  have hrested := after_rested h hs ctx past
  refine ⟨phases_moves h hs ctx past, hrested.last, fun hp => ?_, fun hp => ?_, fun ht => ?_⟩
  · have ht : (e.after (past ++ [.start ctx])).isTerminal = false := by
      simp [isTerminal, hp, Phase.isTerminal]
    have hsome := Option.isSome_iff_ne_none.1 (hrested.last.1 hp)
    obtain ⟨hproducing, hmerging, hunreduced, hreduced, _⟩ :=
      (after_running h ht).books.last hsome
    exact ⟨hproducing, hmerging, hunreduced, hreduced⟩
  · have hbare := hrested.fetching hp
    obtain ⟨n, hn⟩ := List.length_eq_one_iff.1 (hrested.single hp)
    obtain ⟨hsuccess, hissued⟩ := phases_fetching h hs ctx hp
    refine ⟨hbare.fetches, hsuccess, ⟨n, hn, ?_⟩, hissued⟩
    simp [outstanding, hn, OrderedMap.keys, hbare.merging, hrested.no_last (by simp [hp])]
  · have hrunning := after_running h ht
    refine ⟨hrested.waiting ht, ?_⟩
    rw [hrunning.terms.failureLimit]
    exact hrunning.failures

end Runs

theorem create_shaped (policy : ExecutionPolicy) (name : ExecutionName) (session : SessionName)
    (parallel : Nat) (fetches : Bool) (now : Nat) :
    Shaped (create policy name session parallel fetches now) := by
  cases fetches with
  | false => exact ⟨by simp [create], fun hp => by cases hp⟩
  | true => exact ⟨by simp [create], fun _ => ⟨rfl, rfl, Nat.zero_le _, rfl, rfl, rfl⟩⟩

/-- From its start on, an execution goes through its phases in their order, and back only from a
final merge to producing; each phase says what is going on. -/
theorem phases_move (policy : ExecutionPolicy) (name : ExecutionName) (session : SessionName)
    (parallel : Nat) (fetches : Bool) (now : Nat) (past : List Call) (ctx : Context)
    (hone : 1 ≤ parallel) :
    Phases (create policy name session parallel fetches now) (past ++ [.start ctx]) :=
  phases_of_unbegun (create_unbegun policy name session fetches now hone)
    (create_shaped policy name session parallel fetches now) ctx past

/-- The calls after the start of an execution of two units, with resources to fetch: the first task
fails, and the final merge comes back with half of what it was given. -/
def shortRun : List Call :=
  [finish 9 none, finish 8 none, finish 7 none, finish 6 (some 1), finish 5 none, finish 4 none,
    finish 3 none, finish 2 none, .fetched (.ofExecution ⟨"e"⟩ 2) 5 ctx,
    .fail (.ofExecution ⟨"e"⟩ 1) "killed" ctx]
where
  ctx : Context := ⟨true, 90⟩
  finish (i : Nat) (weight : Option Nat) : Call :=
    .finish ⟨.ofExecution ⟨"e"⟩ i, ⟨"w"⟩, 20, weight⟩ ctx

theorem phases_move_sample :
    Phases (create sample.policy ⟨"e"⟩ ⟨"s"⟩ 2 true 0) (shortRun ++ [.start shortRun.ctx]) ∧
    (List.range 11).map (fun n => ((create sample.policy ⟨"e"⟩ ⟨"s"⟩ 2 true 0).after
        (shortRun.drop n ++ [.start shortRun.ctx])).phase) =
      [.finished, .finalReducing, .producing, .producing, .finalReducing, .producing, .producing,
        .producing, .producing, .fetching, .fetching] :=
  ⟨phases_move _ _ _ _ _ _ _ _ (by decide), by decide +kernel⟩

end Execution
end RenderFarm
