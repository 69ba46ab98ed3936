import RenderFarm.Proofs.Execution.Actions
import RenderFarm.Proofs.Execution.Provenance
import RenderFarm.Proofs.Execution.Termination

/-!
# RenderFarm.Proofs.Execution.Ending

Why an execution ends: once, and for no other reason than the two that there are to fail and the
one that there is to finish.

* `lastFailures e past`: the failures of the final merge, counted over a run.
* `Fatal`, `Completes`: the calls that an execution has to fail or to finish at.
* `Turned`: what a call on a running execution comes to. `respond_turned` says that there is nothing
  else, `Fatal.ends` and `Completes.ends` that such a call does end the execution.
* `ends_for_cause`: the end in every run.
-/

namespace RenderFarm
namespace Execution

/-- How often the inputs of the outstanding final merge have been tried in vain after the call, if
it was `k` times before. -/
def triedBy (e : Execution) (k : Nat) (call : Call) : Nat :=
  match e.finalMerge, call with
  | none, _ => 0
  | some (n, _), .fail task _ _ => if task = n then k + 1 else k
  | some (n, _), .finish c _ => if c.task = n then 0 else k
  | some _, .start _ | some _, .fetched .. => k

/-- The failures of the current final merge, under whatever names. Each final merge that is not
another try of the one before starts anew. -/
def lastFailures (e : Execution) : List Call → Nat
  | [] => 0
  | call :: past => (e.after past).triedBy (e.lastFailures past) call

/-- The execution runs, and the call is one failure too many, of its producing tasks or of its final
merge. -/
inductive Fatal (e : Execution) (past : List Call) : Call → String → Prop where
  | producing {task : TaskName} {reason : String} {ctx : Context} :
      (e.after past).isTerminal = false → task ∈ (e.after past).producing →
      e.missed (.fail task reason ctx :: past) = e.failureLimit + 1 →
      Fatal e past (.fail task reason ctx) reason
  | merging {task : TaskName} {reason : String} {ctx : Context} {g : MergeGroup} :
      (e.after past).isTerminal = false → (e.after past).finalMerge = some (task, g) →
      e.lastFailures (.fail task reason ctx :: past) = e.policy.reducingRetries + 1 →
      Fatal e past (.fail task reason ctx) reason

/-- The execution runs, and the call reports the final merge, of all that went into it. -/
inductive Completes (e : Execution) (past : List Call) : Call → PartialResult → Prop where
  | merging {c : Completion} {ctx : Context} {g : MergeGroup} :
      (e.after past).isTerminal = false → (e.after past).finalMerge = some (c.task, g) →
      creditedWeight g c.weight = g.weight →
      Completes e past (.finish c ctx) (c.output g.weight)

/-- What an execution that is over has announced. -/
def announcement (e : Execution) : List Action :=
  match e.phase with
  | .finished => (e.result.map .finish).toList
  | .failed => (e.error.map .fail).toList
  | .fetching | .producing | .finalReducing => []

/-! ## Tries of the final merge -/

section Tries

variable {e e' : Execution} {m l k : Nat} {call : Call}

theorem Issues.attempts {ts : List Task} (h : Issues e ts e') {n : TaskName} {g : MergeGroup}
    (hf : e'.finalMerge = some (n, g)) :
    e.finalMerge = some (n, g) ∨ e.finalMerge = none ∧ g.attempts = 0 := by
  induction h with
  | nothing | produce => exact .inl hf
  | merge _ _ _ ih => exact ih hf
  | last hnone =>
    cases hf
    exact .inr ⟨hnone, rfl⟩

theorem attempts_proceed {change : Execution × List Action} {ctx : Context} {n : TaskName}
    {g : MergeGroup} (hf : (proceed change (some ctx)).1.finalMerge = some (n, g)) :
    change.1.finalMerge = some (n, g) ∨ change.1.finalMerge = none ∧ g.attempts = 0 := by
  simp only [proceed, andAdvance] at hf
  rcases advance_issues change.1 ctx with ⟨reason, ha⟩ | ⟨ts, e', ha, hi⟩
  · rw [ha] at hf
    exact .inl hf
  · rw [ha] at hf
    exact hi.attempts hf

theorem triedBy_none (hf : e.finalMerge = none) : e.triedBy k call = 0 := by
  simp [triedBy, hf]

/-- A call that is not about the final merge leaves its tries. -/
theorem triedBy_ignored (ht : e.isTerminal = false) (hover : e.overBy call = []) {n : TaskName}
    {g : MergeGroup} (hf : e.finalMerge = some (n, g)) : e.triedBy k call = k := by
  have hmem : n ∈ e.outstanding := mem_outstanding.2 (.inr (.inr ⟨g, hf⟩))
  cases call with
  | start | fetched => simp [triedBy, hf]
  | finish c ctx =>
    have hne : c.task ≠ n := by
      rintro rfl
      simp [overBy, ht, hmem] at hover
    simp [triedBy, hf, hne]
  | fail task reason ctx =>
    have hne : task ≠ n := by
      rintro rfl
      simp [overBy, ht, hmem] at hover
    simp [triedBy, hf, hne]

/-- The counter of the final merge is the number of its failures. -/
theorem Step.attempts {lost missed : Nat} {ended : List TaskName} {change : Execution × List Action}
    {next : Option Context} (hstep : Step e call lost missed ended change next)
    (hover : e.overBy call = ended) (ht : e.isTerminal = false) (hb : Balanced m l e)
    (hk : ∀ n g, e.finalMerge = some (n, g) → g.attempts = k) {n : TaskName} {g : MergeGroup}
    (hf : (proceed change next).1.finalMerge = some (n, g)) : g.attempts = e.triedBy k call := by
  cases hstep with
  | ignored =>
    rw [triedBy_ignored ht hover hf]
    exact hk n g hf
  | started | fetched =>
    rcases attempts_proceed hf with hold | ⟨hnone, hzero⟩
    · have hold : e.finalMerge = some (n, g) := hold
      rw [hk n g hold]
      simp [triedBy, hold]
    · exact hzero.trans (triedBy_none (e := e) hnone).symm
  | produced _ hp | missed _ hp =>
    have hnone := hb.no_last_of_producing hp
    rcases attempts_proceed hf with hold | ⟨_, hzero⟩
    · simp [hnone] at hold
    · rw [hzero, triedBy_none hnone]
  | merged _ _ hg | retried _ _ hg | abandoned _ _ hg =>
    have hnone := hb.no_last_of_merging hg
    rcases attempts_proceed hf with hold | ⟨_, hzero⟩
    · simp [hnone] at hold
    · rw [hzero, triedBy_none hnone]
  | cutShort _ _ _ hlast =>
    rcases attempts_proceed hf with hold | ⟨_, hzero⟩
    · cases hold
    · rw [hzero]
      simp [triedBy, hlast]
  | completed | finalAbandoned => cases hf
  | finalRetried _ _ _ hlast =>
    cases hf
    simp [triedBy, hlast, hk _ _ hlast]

end Tries

/-! ## One call -/

/-- What a call on a running execution comes to, with the actions that it gives. -/
inductive Turned (e : Execution) (past : List Call) (call : Call) :
    Execution × List Action → Prop where
  | on {e' : Execution} {actions : List Action} : e'.isTerminal = false → e'.error = none →
      (∀ a ∈ actions, a.ends = false) → Turned e past call (e', actions)
  | failed {e' : Execution} {front : List Action} {reason : String} : Fatal e past call reason →
      e'.phase = .failed → e'.error = some reason → e'.result = none →
      (∀ a ∈ front, a.ends = false) → Turned e past call (e', front ++ [.fail reason])
  | finished {e' : Execution} {front : List Action} {r : PartialResult} :
      Completes e past call r → e'.phase = .finished → e'.result = some r → e'.error = none →
      (∀ a ∈ front, a.ends = false) → Turned e past call (e', front ++ [.finish r])

/-- What is known of an execution that runs after the calls. -/
structure Running (e : Execution) (past : List Call) : Prop where
  sound : Sound (e.after past)
  books : Balanced (e.missed past) (e.lost past) (e.after past)
  terms : SameTerms e (e.after past)
  failures : (e.after past).failures ≤ e.failureLimit
  tries : ∀ n g, (e.after past).finalMerge = some (n, g) →
    g.attempts = e.lastFailures past ∧ g.attempts ≤ e.policy.reducingRetries
  error : (e.after past).error = none

section Turn

variable {e : Execution} {past : List Call} {call : Call} {lost missed m l : Nat}
  {ended : List TaskName} {change : Execution × List Action}

theorem Issues.error {e' : Execution} {ts : List Task} (h : Issues e ts e') :
    e'.error = e.error := by
  induction h with
  | nothing | last | produce => rfl
  | merge _ _ _ ih => exact ih

theorem Issues.failures {e' : Execution} {ts : List Task} (h : Issues e ts e') :
    e'.failures = e.failures := by
  induction h with
  | nothing | last | produce => rfl
  | merge _ _ _ ih => exact ih

/-- As long as units are held or missing, there is something to merge or to come. -/
theorem Balanced.hopeless (h : Balanced m l e) (hone : 1 ≤ e.parallel) {reason : String} (hh : Hopeless e reason) :
    e.failureLimit < e.failures ∧
    reason = e.lastFailure.getD "too many producing tasks failed" := by
  cases hh with
  | exhausted hl => exact ⟨hl, rfl⟩
  | barren hf htarget hm hu hr =>
    have hheld := h.units_held
    simp [holdings, lastInputs, hf, hu, hr, OrderedMap.values, hm] at hheld
    omega

/-- Only the failure of a producing task can be one too many, and it leaves its reason. -/
theorem Step.fatal {ctx : Context}
    (hstep : Step (e.after past) call lost missed ended change (some ctx)) (h : Running e past)
    (hl : change.1.failureLimit < change.1.failures) :
    Fatal e past call (change.1.lastFailure.getD "too many producing tasks failed") := by
  have hle := h.failures
  rw [← h.terms.failureLimit] at hle
  cases hstep with
  | @missed task reason _ ht hp =>
    have hl : (e.after past).failureLimit < (e.after past).failures + 1 := hl
    have hmissed := h.books.failures
    have hcount : e.missed (.fail task reason ctx :: past) = e.missed past + 1 := by
      simp [Execution.missed, tally, missedBy, ht, hp]
    refine .producing ht hp ?_
    rw [hcount, ← h.terms.failureLimit]
    omega
  | _ => exact absurd hl (Nat.not_lt.2 hle)

theorem Step.turned {next : Option Context}
    (hstep : Step (e.after past) call lost missed ended change next) (h : Running e past)
    (hone : 1 ≤ e.parallel)
    (ht : (e.after past).isTerminal = false) : Turned e past call (proceed change next) := by
  have hbooks := hstep.books h.sound h.books
  have hterms := h.terms.trans (hstep.accounts h.sound).terms
  cases next with
  | some ctx =>
    have hrun := hstep.running
    have hb := hbooks.running hrun
    have herror : change.1.error = none := by
      refine Eq.trans ?_ h.error
      cases hstep <;> rfl
    have hfront : ∀ a ∈ change.2, a.ends = false := fun a => hstep.ends
    rcases advance_outcome hrun ctx with ⟨reason, hh, ha⟩ | ⟨_, ts, e', ha, hi, _⟩
    · obtain ⟨hl, rfl⟩ := hb.hopeless (by rwa [hterms.parallel]) hh
      simp only [proceed, andAdvance, ha, failWith]
      exact .failed (hstep.fatal h hl) rfl rfl hb.unset hfront
    · simp only [proceed, andAdvance, ha]
      refine .on (hi.isTerminal hrun) (hi.error.trans herror) fun a hmem => ?_
      rcases List.mem_append.1 hmem with hmem | hmem
      · exact hfront a hmem
      · obtain ⟨t, _, rfl⟩ := List.mem_map.1 hmem
        rfl
  | none =>
    cases hstep with
    | ignored => exact .on ht h.error (by simp)
    | completed _ _ _ hf hcredit =>
      exact @Turned.finished _ _ _ _ [] _ (.merging ht hf hcredit) rfl rfl h.error (by simp)
    | finalRetried =>
      refine .on ht h.error fun a hmem => ?_
      cases List.mem_singleton.1 hmem
      rfl
    | @finalAbandoned task reason ctx g _ _ _ hf hr =>
      obtain ⟨htries, hle⟩ := h.tries _ _ hf
      rw [h.terms.policy] at hr
      have hcount : e.lastFailures (.fail task reason ctx :: past) = e.lastFailures past + 1 := by
        simp [lastFailures, triedBy, hf]
      refine @Turned.failed _ _ _ _ [] _ (.merging ht hf ?_) rfl rfl h.books.unset (by simp)
      rw [hcount]
      omega

theorem Running.turned (h : Running e past) (call : Call) (hone : 1 ≤ e.parallel)
    (hrun : (e.after past).isTerminal = false) :
    Turned e past call ((e.after past).respond call) := by
  obtain ⟨change, next, hstep, heq⟩ := respond_step (e.after past) call
  rw [heq]
  exact hstep.turned h hone hrun

theorem terminal_proceed {ctx : Context} (ht : change.1.isTerminal = false)
    (hl : change.1.failureLimit < change.1.failures) :
    (proceed change (some ctx)).1.isTerminal = true := by
  simp only [proceed, andAdvance]
  rcases advance_cases ht ctx with ⟨reason, ha⟩ | ⟨hle, _⟩
  · rw [ha]
    rfl
  · omega

theorem Fatal.ends {reason : String} (hc : Fatal e past call reason) (h : Running e past) :
    ((e.after past).respond call).1.isTerminal = true := by
  obtain ⟨change, next, hstep, heq⟩ := respond_step (e.after past) call
  rw [heq]
  generalize (e.after past).lostBy call = lost at hstep
  generalize (e.after past).missedBy call = missed at hstep
  cases hc with
  | @producing task reason ctx ht hp hcount =>
    have hmem : task ∈ (e.after past).outstanding := mem_outstanding.2 (.inl hp)
    have hover : (e.after past).overBy (.fail task reason ctx) = [task] := by
      simp [overBy, ht, hmem]
    rw [hover] at hstep
    cases hstep with
    | missed =>
      have hlimit : e.missed past + 1 = e.failureLimit + 1 := by
        simpa [Execution.missed, tally, missedBy, ht, hp] using hcount
      rw [← h.books.failures, ← h.terms.failureLimit] at hlimit
      have hl : (e.after past).failureLimit < (e.after past).failures + 1 := by omega
      refine terminal_proceed ?_ ?_
      · exact ht
      · exact hl
    | retried _ hno | abandoned _ hno | finalRetried _ hno | finalAbandoned _ hno =>
      exact absurd hp hno
  | @merging task reason ctx g ht hf hcount =>
    have hmem : task ∈ (e.after past).outstanding := mem_outstanding.2 (.inr (.inr ⟨g, hf⟩))
    have hover : (e.after past).overBy (.fail task reason ctx) = [task] := by
      simp [overBy, ht, hmem]
    rw [hover] at hstep
    cases hstep with
    | missed _ hp => simp [h.books.no_last_of_producing hp] at hf
    | retried _ _ hg | abandoned _ _ hg => simp [h.books.no_last_of_merging hg] at hf
    | finalRetried _ _ _ hf' hr =>
      -- the final merge has been tried as often as it may be
      obtain ⟨htries, _⟩ := h.tries _ _ hf'
      have hcount : e.lastFailures past + 1 = e.policy.reducingRetries + 1 := by
        simpa [lastFailures, triedBy, hf] using hcount
      rw [h.terms.policy] at hr
      omega
    | finalAbandoned => rfl

theorem Completes.ends {r : PartialResult} (hc : Completes e past call r) (h : Running e past) :
    ((e.after past).respond call).1.isTerminal = true := by
  obtain ⟨change, next, hstep, heq⟩ := respond_step (e.after past) call
  rw [heq]
  generalize (e.after past).lostBy call = lost at hstep
  generalize (e.after past).missedBy call = missed at hstep
  cases hc with
  | @merging c ctx g ht hf hcredit =>
    have hmem : c.task ∈ (e.after past).outstanding := mem_outstanding.2 (.inr (.inr ⟨g, hf⟩))
    have hover : (e.after past).overBy (.finish c ctx) = [c.task] := by
      simp [overBy, ht, hmem]
    rw [hover] at hstep
    cases hstep with
    | produced _ hp => simp [h.books.no_last_of_producing hp] at hf
    | merged _ _ hg => simp [h.books.no_last_of_merging hg] at hf
    | completed => rfl
    | cutShort _ _ _ hf' hlt =>
      cases hf.symm.trans hf'
      omega

theorem Fatal.running {reason : String} (hc : Fatal e past call reason) :
    (e.after past).isTerminal = false := by
  cases hc with
  | producing ht | merging ht => exact ht

theorem Completes.running {r : PartialResult} (hc : Completes e past call r) :
    (e.after past).isTerminal = false := by
  cases hc with
  | merging ht => exact ht

section Causes

variable {turn : Execution × List Action} (h : Turned e past call turn)

include h

theorem Turned.fatal {reason : String} (hphase : turn.1.phase = .failed)
    (herror : turn.1.error = some reason) : Fatal e past call reason := by
  cases h with
  | on hgoes =>
    dsimp only at hphase
    simp [isTerminal, hphase, Phase.isTerminal] at hgoes
  | failed hc _ herror' =>
    cases herror.symm.trans herror'
    exact hc
  | finished _ hphase' => cases hphase.symm.trans hphase'

theorem Turned.completes {r : PartialResult} (hphase : turn.1.phase = .finished)
    (hresult : turn.1.result = some r) : Completes e past call r := by
  cases h with
  | on hgoes =>
    dsimp only at hphase
    simp [isTerminal, hphase, Phase.isTerminal] at hgoes
  | failed _ hphase' => cases hphase.symm.trans hphase'
  | finished hc _ hresult' =>
    cases hresult.symm.trans hresult'
    exact hc

theorem Turned.of_fatal {reason : String} (hc : Fatal e past call reason)
    (hends : turn.1.isTerminal = true) : turn.1.phase = .failed ∧ turn.1.error = some reason := by
  cases h with
  | on hgoes => simp [hgoes] at hends
  | failed hc' hphase herror =>
    -- the reason is the one that the call states, whichever failure it is
    refine ⟨hphase, herror.trans (congrArg some ?_)⟩
    cases hc <;> cases hc' <;> rfl
  | finished hc' =>
    cases hc'
    cases hc

theorem Turned.of_completes {r : PartialResult} (hc : Completes e past call r)
    (hends : turn.1.isTerminal = true) : turn.1.phase = .finished ∧ turn.1.result = some r := by
  cases h with
  | on hgoes => simp [hgoes] at hends
  | failed hc' =>
    cases hc
    cases hc'
  | finished hc' hphase hresult =>
    refine ⟨hphase, hresult.trans (congrArg some ?_)⟩
    cases hc with
    | merging _ hf =>
      cases hc' with
      | merging _ hf' =>
        cases hf.symm.trans hf'
        rfl

end Causes

end Turn

/-! ## Runs -/

/-- An execution to which nothing has happened. -/
structure Unbegun (e : Execution) : Prop where
  sound : Sound e
  books : Balanced 0 0 e
  paced : Paced 0 0 e
  units : 1 ≤ e.parallel
  running : e.isTerminal = false
  last : e.finalMerge = none
  error : e.error = none

/-- How an execution stands after the actions that it has given. -/
structure Standing (actions : List Action) (e : Execution) : Prop where
  actions : ∃ front, actions = front ++ e.announcement ∧ ∀ a ∈ front, a.ends = false
  result : e.result.isSome = true ↔ e.phase = .finished
  error : e.error.isSome = true ↔ e.phase = .failed

theorem Standing.running {actions : List Action} {e : Execution} (ht : e.isTerminal = false)
    (hr : e.result = none) (herror : e.error = none) (ha : ∀ a ∈ actions, a.ends = false) :
    Standing actions e := by
  unfold isTerminal at ht
  refine ⟨⟨actions, ?_, ha⟩, ?_, ?_⟩
  · unfold announcement
    cases hp : e.phase with
    | fetching | producing | finalReducing => simp
    | finished | failed => simp [hp, Phase.isTerminal] at ht
  · cases hp : e.phase with
    | fetching | producing | finalReducing | failed => simp [hr]
    | finished => simp [hp, Phase.isTerminal] at ht
  · cases hp : e.phase with
    | fetching | producing | finalReducing | finished => simp [herror]
    | failed => simp [hp, Phase.isTerminal] at ht

theorem announcement_running {e : Execution} (ht : e.isTerminal = false) : e.announcement = [] := by
  unfold isTerminal at ht
  unfold announcement
  cases hp : e.phase with
  | fetching | producing | finalReducing => rfl
  | finished | failed => simp [hp, Phase.isTerminal] at ht

section Runs

variable {e : Execution} (h : Unbegun e)

include h

theorem after_running {past : List Call} (ht : (e.after past).isTerminal = false) :
    Running e past := by
  induction past with
  | nil =>
    refine ⟨h.sound, h.books, .refl e, h.paced.failures, fun n g hf => ?_, h.error⟩
    rw [after, h.last] at hf
    cases hf
  | cons call past ih =>
    have hbefore : (e.after past).isTerminal = false := by
      cases hover : (e.after past).isTerminal with
      | false => rfl
      | true => rwa [after, respond_terminal hover, hover] at ht
    have hrunning := ih hbefore
    have hterms := after_terms h.sound (call :: past)
    have hpaced := (after_paced h.sound h.books h.paced (call :: past)).2 ht
    have hbooks := (after_books h.sound h.books (call :: past)).running ht
    refine ⟨after_sound h.sound _, hbooks, hterms, ?_, fun n g hf => ⟨?_, ?_⟩, ?_⟩
    · rw [← hterms.failureLimit]
      exact hpaced.failures
    · obtain ⟨change, next, hstep, heq⟩ := respond_step (e.after past) call
      have hf' : (proceed change next).1.finalMerge = some (n, g) := by
        rw [← heq]
        exact hf
      exact hstep.attempts rfl hbefore hrunning.books (fun n g hf => (hrunning.tries n g hf).1) hf'
    · have := hpaced.last n g hf
      rw [hterms.patience] at this
      exact Nat.le_of_lt_succ this
    · have hturned := hrunning.turned call h.units hbefore
      rw [after] at ht ⊢
      generalize (e.after past).respond call = r at hturned ht
      cases hturned with
      | on _ herror => exact herror
      | failed _ hphase | finished _ hphase =>
        simp [isTerminal, hphase, Phase.isTerminal] at ht

/-- Each turn adds its actions, and the end comes with the last of them. -/
theorem after_standing (past : List Call) :
    Standing (e.emitted past) (e.after past) := by
  induction past with
  | nil => exact .running h.running h.books.unset h.error (by simp [emitted])
  | cons call past ih =>
    rw [emitted, after]
    cases ht : (e.after past).isTerminal with
    | true =>
      rw [respond_terminal ht, List.append_nil]
      exact ih
    | false =>
      have hturned := (after_running h ht).turned call h.units ht
      obtain ⟨front, hfront, hnone⟩ := ih.actions
      rw [announcement_running ht, List.append_nil] at hfront
      rw [hfront]
      have hbooks := after_books h.sound h.books (call :: past)
      rw [after] at hbooks
      generalize (e.after past).respond call = r at hturned hbooks
      have hall : ∀ actions : List Action, (∀ a ∈ actions, a.ends = false) →
          ∀ a ∈ front ++ actions, a.ends = false := fun actions hactions a ha =>
        (List.mem_append.1 ha).elim (hnone a) (hactions a)
      cases hturned with
      | on hgoes herror hactions =>
        exact .running hgoes (hbooks.running hgoes).unset herror (hall _ hactions)
      | failed _ hphase herror hresult hactions =>
        refine ⟨⟨_, ?_, hall _ hactions⟩, by simp [hphase, hresult], by simp [hphase, herror]⟩
        simp [announcement, hphase, herror]
      | finished _ hphase hresult herror hactions =>
        refine ⟨⟨_, ?_, hall _ hactions⟩, by simp [hphase, hresult], by simp [hphase, herror]⟩
        simp [announcement, hphase, hresult]

theorem fatal_iff {call : Call} {past : List Call} {reason : String} :
    ((e.after past).isTerminal = false ∧ (e.after (call :: past)).phase = .failed ∧
      (e.after (call :: past)).error = some reason) ↔ Fatal e past call reason := by
  constructor
  · rintro ⟨ht, hphase, herror⟩
    have hturned := (after_running h ht).turned call h.units ht
    exact hturned.fatal hphase herror
  · intro hc
    have hrunning := after_running h hc.running
    have hturned := hrunning.turned call h.units hc.running
    exact ⟨hc.running, hturned.of_fatal hc (hc.ends hrunning)⟩

theorem completes_iff {call : Call} {past : List Call} {r : PartialResult} :
    ((e.after past).isTerminal = false ∧ (e.after (call :: past)).phase = .finished ∧
      (e.after (call :: past)).result = some r) ↔ Completes e past call r := by
  constructor
  · rintro ⟨ht, hphase, hresult⟩
    have hturned := (after_running h ht).turned call h.units ht
    exact hturned.completes hphase hresult
  · intro hc
    have hrunning := after_running h hc.running
    have hturned := hrunning.turned call h.units hc.running
    exact ⟨hc.running, hturned.of_completes hc (hc.ends hrunning)⟩

end Runs

theorem respond_failures (e : Execution) (call : Call) :
    (e.respond call).1.failures = e.failures + e.missedBy call := by
  obtain ⟨change, next, hstep, heq⟩ := respond_step e call
  have hchange : change.1.failures = e.failures + e.missedBy call := by
    generalize e.missedBy call = missed at hstep
    generalize e.lostBy call = lost at hstep
    generalize e.overBy call = ended at hstep
    cases hstep <;> rfl
  rw [heq, ← hchange]
  cases next with
  | none => rfl
  | some ctx =>
    simp only [proceed, andAdvance]
    rcases advance_issues change.1 ctx with ⟨reason, ha⟩ | ⟨ts, e', ha, hi⟩
    · rw [ha]
      rfl
    · rw [ha]
      exact hi.failures

theorem after_failures {e : Execution} (hzero : e.failures = 0) (past : List Call) :
    (e.after past).failures = e.missed past := by
  induction past with
  | nil => exact hzero
  | cons call past ih =>
    rw [after, respond_failures, ih]
    rfl

theorem create_unbegun (policy : ExecutionPolicy) (name : ExecutionName) (session : SessionName)
    (fetches : Bool) (now : Nat) {parallel : Nat} (hone : 1 ≤ parallel) :
    Unbegun (create policy name session parallel fetches now) :=
  ⟨create_sound policy name session parallel fetches now,
    create_balanced policy name session parallel fetches now,
    create_paced policy name session parallel fetches now, hone,
    by cases fetches <;> rfl, rfl, rfl⟩

/-- The end of an execution, as it comes in a run. -/
structure Ending (e : Execution) (past : List Call) : Prop where
  failures : (e.after past).failures = e.missed past
  failed : ∀ call earlier reason, call :: earlier <:+ past →
    (((e.after earlier).isTerminal = false ∧ (e.after (call :: earlier)).phase = .failed ∧
      (e.after (call :: earlier)).error = some reason) ↔ Fatal e earlier call reason)
  finished : ∀ call earlier r, call :: earlier <:+ past →
    (((e.after earlier).isTerminal = false ∧ (e.after (call :: earlier)).phase = .finished ∧
      (e.after (call :: earlier)).result = some r) ↔ Completes e earlier call r)
  standing : Standing (e.emitted past) (e.after past)
  closed : (e.after past).isTerminal = true →
    ∀ call, (e.after past).respond call = (e.after past, [])

/-- An execution fails at the report of one failure too many, with its reason, finishes at the
report of a final merge of everything, and does neither at any other call. It announces its end last
of all, and answers nothing after it. -/
theorem ends_for_cause (policy : ExecutionPolicy) (name : ExecutionName) (session : SessionName)
    (parallel : Nat) (fetches : Bool) (now : Nat) (past : List Call) (hone : 1 ≤ parallel) :
    Ending (create policy name session parallel fetches now) past :=
  have h := create_unbegun policy name session fetches now hone
  ⟨after_failures rfl past, fun _ _ _ _ => fatal_iff h, fun _ _ _ _ => completes_iff h,
    after_standing h past, respond_terminal⟩

/-- A run in which the final merge fails, and fails again when it is tried once more. -/
def failingRun : List Call :=
  [fail 6 "second", fail 5 "first", finish 4, finish 3, finish 2, finish 1, .start ctx]
where
  ctx : Context := ⟨true, 90⟩
  finish (i : Nat) : Call := .finish ⟨.ofExecution ⟨"e"⟩ i, ⟨"w"⟩, 20, none⟩ ctx
  fail (i : Nat) (reason : String) : Call := .fail (.ofExecution ⟨"e"⟩ i) reason ctx

theorem ends_for_cause_sample :
    Ending sample sampleRun ∧ (sample.after sampleRun).phase = .finished ∧
    Ending sample failingRun ∧ (sample.after failingRun.tail).phase = .finalReducing ∧
    (sample.after failingRun).error = some "second" ∧ sample.lastFailures failingRun = 2 :=
  ⟨ends_for_cause _ _ _ _ _ _ _ (by decide), by decide +kernel,
    ends_for_cause _ _ _ _ _ _ _ (by decide), by decide +kernel,
    by decide +kernel, by decide +kernel⟩

end Execution
end RenderFarm
