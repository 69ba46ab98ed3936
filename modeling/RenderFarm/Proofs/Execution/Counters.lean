import RenderFarm.Proofs.Execution.Elapsed
import RenderFarm.Proofs.Execution.Groups

/-!
# RenderFarm.Proofs.Execution.Counters

The sums of an execution that must be words, and where the program stops because one is not.

* `Ranked e`: no counter exceeds both the target and the number of the next task.
* `Noted e`: an execution notes that a sum was no word exactly if the target, the number of the next
  task or one of the times is none.
* `Words e`: all counters are words.
* `after?_eq_none_iff`: the program stops in a run exactly if more is wanted than a word can say,
  more tasks are issued, or more time is spent on some kind of work.
* `counters_fit`, `times_counted`: what the counters of the producing tasks and the times are in the
  runs that the program gets through.
-/

namespace RenderFarm
namespace Execution

structure Ranked (e : Execution) : Prop where
  room : e.finished + e.producing.length ≤ e.target
  failures : e.failures ≤ e.finished
  seeds : e.nextSeed ≤ e.nextTask
  attempts : ∀ n g, e.Merges n g → g.attempts < e.nextTask

/-- One of the numbers is no word. -/
def Over : List Nat → Prop
  | [] => False
  | n :: ns => Word.size ≤ n ∨ Over ns

/-- The counters that no other counter exceeds. -/
def leading (e : Execution) : List Nat :=
  [e.target, e.nextTask, e.times.fetching, e.times.producing, e.times.reducing]

def Noted (e : Execution) : Prop := e.overflowed = true ↔ Over e.leading

variable {e e' : Execution} {call : Call} {lost missed m l : Nat} {ended : List TaskName}
  {change : Execution × List Action} {next : Option Context} {ts : List Task} {past : List Call}

theorem overflows_iff {e : Execution} {sums : List Nat} :
    e.overflows sums = true ↔ e.overflowed = true ∨ Over sums := by
  rw [overflows]
  generalize e.overflowed = noted
  induction sums generalizing noted with
  | nil => simp [Over]
  | cons n sums ih => rw [List.foldl_cons, ih, Bool.or_eq_true, decide_eq_true_eq, or_assoc, Over]

theorem over_leading_iff : Over e.leading ↔
    Word.size ≤ e.target ∨ Word.size ≤ e.nextTask ∨ ∃ s, Word.size ≤ e.times.of s := by
  simp only [leading, Over, or_false]
  refine or_congr_right (or_congr_right ⟨?_, ?_⟩)
  · rintro (hs | hs | hs)
    · exact ⟨.fetching, hs⟩
    · exact ⟨.producing, hs⟩
    · exact ⟨.reducing, hs⟩
  · rintro ⟨s, hs⟩
    cases s with
    | fetching => exact .inl hs
    | producing => exact .inr (.inl hs)
    | reducing => exact .inr (.inr hs)

structure Words (e : Execution) : Prop where
  target : e.target < Word.size
  finished : e.finished < Word.size
  failures : e.failures < Word.size
  nextSeed : e.nextSeed < Word.size
  nextTask : e.nextTask < Word.size
  attempts : ∀ n g, e.Merges n g → g.attempts < Word.size
  times : ∀ s, e.times.of s < Word.size

/-- All counters are words unless it is noted that one is not. -/
theorem Noted.words (h : Noted e) (hr : Ranked e) (hnone : e.overflowed = false) : Words e := by
  have hfits : ¬ Over e.leading := fun hover => by
    cases (h.2 hover).symm.trans hnone
  simp only [over_leading_iff, not_or, not_exists, Nat.not_le] at hfits
  obtain ⟨htarget, hnext, htimes⟩ := hfits
  have hroom := hr.room
  have hfailures := hr.failures
  refine ⟨htarget, ?_, ?_, hr.seeds.trans_lt hnext, hnext, fun n g hg => ?_, htimes⟩
  · omega
  · omega
  · exact (hr.attempts n g hg).trans hnext

/-! ## Which counter is bounded by which -/

theorem Issues.ranked (hi : Issues e ts e') (h : Ranked e) : Ranked e' := by
  induction hi with
  | nothing => exact h
  | @merge e _ _ _ _ _ ih =>
    refine ih ⟨h.room, h.failures, Nat.le_succ_of_le h.seeds, fun n g hg => ?_⟩
    rcases hg with hg | hg
    · simp only [withMerge, OrderedMap.find?_insert] at hg
      split at hg
      · cases hg
        exact Nat.succ_pos _
      · exact Nat.lt_succ_of_lt (h.attempts n g (.inl hg))
    · exact Nat.lt_succ_of_lt (h.attempts n g (.inr hg))
  | last =>
    refine ⟨h.room, h.failures, Nat.le_succ_of_le h.seeds, fun n g hg => ?_⟩
    rcases hg with hg | hg
    · exact Nat.lt_succ_of_lt (h.attempts n g (.inl hg))
    · cases hg
      exact Nat.succ_pos _
  | @produce e n _ hn =>
    have hroom := h.room
    refine ⟨?_, h.failures, Nat.add_le_add_right h.seeds n, fun m g hg => ?_⟩
    · simp only [startProducing, List.length_append, List.length_map, List.length_range]
      omega
    · exact Nat.lt_add_right n (h.attempts m g hg)

theorem advance_ranked (h : Ranked e) (ctx : Context) : Ranked (e.advance ctx).1 := by
  rcases advance_issues e ctx with ⟨reason, ha⟩ | ⟨ts, e', ha, hi⟩
  · rw [ha]
    exact ⟨h.room, h.failures, h.seeds, h.attempts⟩
  · rw [ha]
    exact hi.ranked h

/-- One producing task more is over, and one less outstanding. -/
theorem Ranked.erased (h : Ranked e) {n : TaskName} (hn : n ∈ e.producing) :
    e.finished + 1 + (e.producing.erase n).length ≤ e.target := by
  have hlength := (List.perm_cons_erase hn).length_eq
  have hroom := h.room
  rw [List.length_cons] at hlength
  omega

theorem Step.ranked (hstep : Step e call lost missed ended change next) (h : Ranked e) :
    Ranked change.1 := by
  have herased : ∀ task n g, (e.merging.erase task).find? n = some g ∨ e.finalMerge = some (n, g) →
      g.attempts < e.nextTask := fun task n g hg =>
    h.attempts n g (hg.imp_left OrderedMap.find?_of_erase)
  have hclosed : ∀ n g, e.merging.find? n = some g ∨ none = some (n, g) →
      g.attempts < e.nextTask := fun n g hg => h.attempts n g (.inl (hg.resolve_right (by simp)))
  cases hstep with
  | ignored | started => exact h
  | fetched => exact ⟨h.room, h.failures, h.seeds, h.attempts⟩
  | produced _ hp => exact ⟨h.erased hp, Nat.le_succ_of_le h.failures, h.seeds, h.attempts⟩
  | missed _ hp =>
    exact ⟨Nat.le_succ_of_le (h.erased hp), Nat.succ_le_succ h.failures, h.seeds, h.attempts⟩
  | merged | abandoned =>
    exact ⟨Nat.le_add_right_of_le h.room, h.failures, h.seeds, herased _⟩
  | completed | finalAbandoned => exact ⟨h.room, h.failures, h.seeds, hclosed⟩
  | cutShort => exact ⟨Nat.le_add_right_of_le h.room, h.failures, h.seeds, hclosed⟩
  | retried _ _ hg =>
    refine ⟨h.room, h.failures, Nat.le_succ_of_le h.seeds, fun n g' hg' => ?_⟩
    rcases hg' with hg' | hg'
    · rw [OrderedMap.find?_insert] at hg'
      split at hg'
      · cases hg'
        exact Nat.succ_lt_succ (h.attempts _ _ (.inl hg))
      · exact Nat.lt_succ_of_lt (herased _ n g' (.inl hg'))
    · exact Nat.lt_succ_of_lt (h.attempts n g' (.inr hg'))
  | finalRetried _ _ _ hf =>
    refine ⟨h.room, h.failures, Nat.le_succ_of_le h.seeds, fun n g' hg' => ?_⟩
    rcases hg' with hg' | hg'
    · exact Nat.lt_succ_of_lt (h.attempts n g' (.inl hg'))
    · cases hg'
      exact Nat.succ_lt_succ (h.attempts _ _ (.inr hf))

theorem after_ranked (h : Ranked e) (past : List Call) : Ranked (e.after past) := by
  induction past with
  | nil => exact h
  | cons call past ih =>
    obtain ⟨change, next, hstep, heq⟩ := respond_step (e.after past) call
    rw [after, heq]
    cases next with
    | none => exact hstep.ranked ih
    | some ctx => exact advance_ranked (hstep.ranked ih) ctx

/-- The inputs of a merge stand for producing tasks that are over. -/
theorem Balanced.weight_le (h : Balanced m l e) {n : TaskName} {g : MergeGroup}
    (hg : e.Merges n g) : g.weight ≤ e.finished := by
  obtain ⟨rest, hperm⟩ := hg.held
  have hheld := totalWeight_perm hperm
  have hlaw := h.law
  rw [totalWeight_append] at hheld
  unfold MergeGroup.weight
  omega

/-! ## What is noted -/

/-- The leading counters grow by sums that are noted, and the other sums do not exceed them. -/
theorem Noted.mark {sums : List Nat} (h : Noted e) (hover : e'.overflowed = e.overflows sums)
    (hsums : Over e'.leading ↔ Over e.leading ∨ Over sums) : Noted e' := by
  rw [Noted, hover, overflows_iff, hsums]
  exact or_congr_left h

theorem Issues.noted (hi : Issues e ts e') (hr : Ranked e) (h : Noted e) : Noted e' := by
  induction hi with
  | nothing => exact h
  | @merge e _ _ hf hu _ ih =>
    refine ih ((Issues.merge hf hu .nothing).ranked hr) (h.mark rfl ?_)
    simp only [leading, Over, or_false, withMerge]
    omega
  | last =>
    refine h.mark rfl ?_
    simp only [leading, Over, or_false, withLast]
    omega
  | @produce e n =>
    have hseeds := hr.seeds
    refine h.mark rfl ?_
    simp only [leading, Over, or_false, startProducing]
    omega

theorem advance_noted (hr : Ranked e) (h : Noted e) (ctx : Context) :
    Noted (e.advance ctx).1 := by
  rcases advance_issues e ctx with ⟨reason, ha⟩ | ⟨ts, e', ha, hi⟩
  · rw [ha]
    exact h
  · rw [ha]
    exact hi.noted hr h

theorem Step.noted (hstep : Step e call lost missed ended change next) (hb : Balanced m l e)
    (hr : Ranked e) (h : Noted e) : Noted change.1 := by
  have hroom := hr.room
  have hfailures := hr.failures
  cases hstep with
  | ignored | started => exact h
  | fetched =>
    refine h.mark rfl ?_
    simp only [leading, Over, or_false]
    omega
  | produced _ hp | missed _ hp =>
    have hover := hr.erased hp
    refine h.mark rfl ?_
    simp only [leading, Over, or_false]
    omega
  | merged _ _ hg | retried _ _ hg | abandoned _ _ hg =>
    have hattempts := hr.attempts _ _ (.inl hg)
    have hweight := hb.weight_le (.inl hg)
    refine h.mark rfl ?_
    simp only [leading, Over, or_false]
    omega
  | cutShort _ _ _ hf | finalRetried _ _ _ hf =>
    have hattempts := hr.attempts _ _ (.inr hf)
    have hweight := hb.weight_le (.inr hf)
    refine h.mark rfl ?_
    simp only [leading, Over, or_false]
    omega
  | completed _ _ _ hf | finalAbandoned _ _ _ hf =>
    have hattempts := hr.attempts _ _ (.inr hf)
    have hweight := hb.weight_le (.inr hf)
    refine h.mark rfl ?_
    simp only [leading, Over, or_false, finishWith, failWith, PhaseTimes.close]
    omega

theorem respond_noted (hb : e.isTerminal = false → Balanced m l e) (hr : Ranked e) (h : Noted e)
    (call : Call) : Noted (e.respond call).1 := by
  cases ht : e.isTerminal with
  | true =>
    rw [respond_terminal ht]
    exact h
  | false =>
    obtain ⟨change, next, hstep, heq⟩ := respond_step e call
    have hchange := hstep.noted (hb ht) hr h
    rw [heq]
    cases next with
    | none => exact hchange
    | some ctx => exact advance_noted (hstep.ranked hr) hchange ctx

/-! ## The target -/

theorem Issues.target (hi : Issues e ts e') : e'.target = e.target := by
  induction hi with
  | nothing | last | produce => rfl
  | merge _ _ _ ih => exact ih

theorem proceed_target (change : Execution × List Action) (next : Option Context) :
    (proceed change next).1.target = change.1.target := by
  cases next with
  | none => rfl
  | some ctx =>
    simp only [proceed, andAdvance]
    rcases advance_issues change.1 ctx with ⟨reason, ha⟩ | ⟨ts, e', ha, hi⟩
    · rw [ha]
      rfl
    · rw [ha]
      exact hi.target

theorem Step.target (hstep : Step e call lost missed ended change next) :
    change.1.target = e.target + missed + lost := by
  cases hstep <;> rfl

/-- The target is what was wanted, also once the execution is over. -/
theorem after_target (e : Execution) (past : List Call) :
    (e.after past).target = e.wanted past := by
  induction past with
  | nil => rfl
  | cons call past ih =>
    obtain ⟨change, next, hstep, heq⟩ := respond_step (e.after past) call
    have hchange := hstep.target
    rw [after, heq, proceed_target, hchange, ih]
    simp only [wanted, Execution.missed, Execution.lost, tally]
    omega

/-! ## Runs -/

theorem Issues.overflowed (hi : Issues e ts e') (h : e.overflowed = true) :
    e'.overflowed = true := by
  induction hi with
  | nothing => exact h
  | merge _ _ _ ih => exact ih (overflows_iff.2 (.inl h))
  | last | produce => exact overflows_iff.2 (.inl h)

theorem advance_overflowed (h : e.overflowed = true) (ctx : Context) :
    (e.advance ctx).1.overflowed = true := by
  rcases advance_issues e ctx with ⟨reason, ha⟩ | ⟨ts, e', ha, hi⟩
  · rw [ha]
    exact h
  · rw [ha]
    exact hi.overflowed h

theorem Step.overflowed (hstep : Step e call lost missed ended change next)
    (h : e.overflowed = true) : change.1.overflowed = true := by
  cases hstep with
  | ignored | started => exact h
  | _ => exact overflows_iff.2 (.inl h)

/-- What is noted stays noted. -/
theorem respond_overflowed (h : e.overflowed = true) (call : Call) :
    (e.respond call).1.overflowed = true := by
  obtain ⟨change, next, hstep, heq⟩ := respond_step e call
  have hchange := hstep.overflowed h
  rw [heq]
  cases next with
  | none => exact hchange
  | some ctx => exact advance_overflowed hchange ctx

/-- The program gets through the calls exactly if nothing is noted after them. -/
theorem after?_eq (h : e.overflowed = false) (past : List Call) :
    e.after? past = if (e.after past).overflowed then none else some (e.after past) := by
  induction past with
  | nil => simp [after?, after, h]
  | cons call past ih =>
    cases hbefore : (e.after past).overflowed with
    | true =>
      have hlater := respond_overflowed hbefore call
      simp [after?, after, ih, hbefore, hlater]
    | false =>
      cases hlater : ((e.after past).respond call).1.overflowed with
      | true | false => simp [after?, after, ih, hbefore, respond?, hlater]

theorem after?_eq_some_iff (h : e.overflowed = false) :
    e.after? past = some e' ↔ (e.after past).overflowed = false ∧ e.after past = e' := by
  rw [after?_eq h]
  cases (e.after past).overflowed <;> simp

section Create

variable (policy : ExecutionPolicy) (name : ExecutionName) (session : SessionName)
  (parallel : Nat) (fetches : Bool) (now : Nat)

theorem create_ranked : Ranked (create policy name session parallel fetches now) :=
  ⟨Nat.zero_le _, Nat.le_refl _, Nat.le_refl _, fun n g hg => by rcases hg with hg | hg <;> cases hg⟩

variable {parallel}

theorem create_noted (hp : parallel < Word.size) :
    Noted (create policy name session parallel fetches now) := by
  simp only [Noted, create, leading, Over, Bool.false_eq_true, or_false, false_iff]
  have hsize : 1 < Word.size := by decide
  omega

theorem after_noted (hp : parallel < Word.size) (past : List Call) :
    Noted ((create policy name session parallel fetches now).after past) := by
  have hs := create_sound policy name session parallel fetches now
  have hbooks := after_books hs (create_balanced policy name session parallel fetches now)
  have hranked := after_ranked (create_ranked policy name session parallel fetches now)
  induction past with
  | nil => exact create_noted policy name session fetches now hp
  | cons call past ih => exact respond_noted (hbooks past).running (hranked past) ih call

/-- The program stops in a run exactly if the producing tasks wanted, the number of the next task or
the time spent on some kind of work are no word; all other sums are words as long as these are. -/
theorem after?_eq_none_iff (hp : parallel < Word.size) (past : List Call) :
    let e := create policy name session parallel fetches now
    e.after? past = none ↔ Word.size ≤ e.wanted past ∨ Word.size ≤ 1 + (e.issued past).length ∨
      ∃ s, Word.size ≤ spent s e past := by
  intro e
  have hnoted : (e.after past).overflowed = true ↔ Over (e.after past).leading :=
    after_noted policy name session fetches now hp past
  obtain ⟨ended, haccounts⟩ :=
    after_accounts (create_sound policy name session parallel fetches now) past
  have hnext : (e.after past).nextTask = 1 + (e.issued past).length := haccounts.next
  have htimes := after_times (create_times policy name session parallel fetches now) past
  have hstops : e.after? past = none ↔ (e.after past).overflowed = true := by
    rw [after?_eq rfl]
    cases (e.after past).overflowed <;> simp
  rw [hstops, hnoted, over_leading_iff, after_target, hnext]
  exact or_congr_right (or_congr_right (exists_congr fun s => by rw [htimes s]))

/-- In a run that the program gets through, no counter has exceeded a word. -/
theorem after?_words (hp : parallel < Word.size)
    (h : (create policy name session parallel fetches now).after? past = some e') : Words e' := by
  obtain ⟨hnone, rfl⟩ := (after?_eq_some_iff rfl).1 h
  exact (after_noted policy name session fetches now hp past).words
    (after_ranked (create_ranked policy name session parallel fetches now) past) hnone

end Create

/-! ## The producing tasks -/

/-- The counters of the producing tasks after the calls. -/
structure CountersFit (e : Execution) (past : List Call) : Prop where
  stops : e.after? past = none ↔ Word.size ≤ e.wanted past ∨
    Word.size ≤ 1 + (e.issued past).length ∨ ∃ s, Word.size ≤ spent s e past
  words : ∀ e', e.after? past = some e' → Words e'
  target : ∀ e', e.after? past = some e' → e'.target = e.wanted past
  finished : ∀ e', e.after? past = some e' →
    e'.finished + e'.producing.length ≤ e'.target ∧ e'.failures ≤ e'.finished
  /-- All that was wanted is over when it is taken to be. -/
  done : ∀ e', e.after? past = some e' → e'.producingDone = true → e.wanted past ≤ e'.finished

/-- Whatever number of units is asked for, what the program counts of the producing tasks is what
they are. It stops at the failure or the loss after which more is wanted than a word can say; the
tasks that are over and those that failed never exceed what is wanted. -/
theorem counters_fit (policy : ExecutionPolicy) (name : ExecutionName) (session : SessionName)
    (parallel : Nat) (fetches : Bool) (now : Nat) (hp : parallel < Word.size)
    (past : List Call) : CountersFit (create policy name session parallel fetches now) past := by
  have hranked := after_ranked (create_ranked policy name session parallel fetches now) past
  have htarget := after_target (create policy name session parallel fetches now) past
  refine ⟨after?_eq_none_iff policy name session fetches now hp past,
    fun e' => after?_words policy name session fetches now hp, fun e' he => ?_, fun e' he => ?_,
    fun e' he hdone => ?_⟩
  · obtain ⟨_, rfl⟩ := (after?_eq_some_iff rfl).1 he
    exact htarget
  · obtain ⟨_, rfl⟩ := (after?_eq_some_iff rfl).1 he
    exact ⟨hranked.room, hranked.failures⟩
  · obtain ⟨_, rfl⟩ := (after?_eq_some_iff rfl).1 he
    exact htarget.symm.trans_le (producingDone_iff.1 hdone).1

theorem counters_fit_sample :
    2 < Word.size ∧ CountersFit sample sampleRun ∧
    (sample.after? sampleRun).map (fun e => (e.target, e.finished, e.failures)) =
      some (3, 3, 1) :=
  ⟨by decide, counters_fit _ _ _ _ _ _ (by decide) _, by decide +kernel⟩

/-- The most units that can be asked for: the first failure takes the target out of the words, and
the program stops. -/
theorem target_overflows :
    let e := create sample.policy ⟨"e"⟩ ⟨"s"⟩ Word.top true 0
    let before : List Call := [.start ⟨false, 0⟩]
    let failure : Call := .fail ⟨"e-task1"⟩ "killed" ⟨false, 0⟩
    (e.after? before).isSome = true ∧ ⟨"e-task1"⟩ ∈ (e.after before).producing ∧
    ¬ ((e.after before).producingFailed ⟨"e-task1"⟩).target ≤ Word.top ∧
    e.after? (failure :: before) = none := by
  decide +kernel

/-! ## Times -/

/-- The times that a client is shown, after the calls. -/
structure TimesCounted (e : Execution) (past : List Call) : Prop where
  stops : ∀ s, Word.size ≤ spent s e past → e.after? past = none
  /-- Times that are words never stop the program. -/
  through : e.wanted past < Word.size → 1 + (e.issued past).length < Word.size →
    (∀ s, spent s e past < Word.size) → e.after? past ≠ none
  sum : ∀ e', e.after? past = some e' →
    ∀ s, e'.snapshot.times.of s = spent s e past ∧ e'.snapshot.times.of s < Word.size
  grows : ∀ call later, e.after? (call :: past) = some later → ∃ earlier,
    e.after? past = some earlier ∧ ∀ s, earlier.snapshot.times.of s ≤ later.snapshot.times.of s
  /-- A time that is a word is its own clamp. -/
  covers : ∀ e', e.after? past = some e' → ∀ s, ∀ elapsed ∈ accepted s e past,
    Word.clamp elapsed ≤ e'.snapshot.times.of s

/-- The time of each kind of work is the sum of what was accepted for it. It never gets less, and is
at least as long as everything that was accepted. The program stops at the first report that takes
such a sum out of the words. -/
theorem times_counted (policy : ExecutionPolicy) (name : ExecutionName) (session : SessionName)
    (parallel : Nat) (fetches : Bool) (now : Nat) (hp : parallel < Word.size)
    (past : List Call) : TimesCounted (create policy name session parallel fetches now) past := by
  have htimes := after_times (create_times policy name session parallel fetches now)
  have hstops := after?_eq_none_iff policy name session fetches now hp past
  refine ⟨fun s hle => hstops.2 (.inr (.inr ⟨s, hle⟩)), fun hwanted hissued hspent hnone => ?_,
    fun e' he s => ?_, fun call later he => ?_, fun e' he s elapsed hmem => ?_⟩
  · rcases hstops.1 hnone with hle | hle | ⟨s, hle⟩
    · exact absurd hwanted (Nat.not_lt.2 hle)
    · exact absurd hissued (Nat.not_lt.2 hle)
    · exact absurd (hspent s) (Nat.not_lt.2 hle)
  · have hwords := after?_words policy name session fetches now hp he
    obtain ⟨_, rfl⟩ := (after?_eq_some_iff rfl).1 he
    exact ⟨htimes past s, hwords.times s⟩
  · obtain ⟨earlier, hbefore, _⟩ := Option.bind_eq_some_iff.1 he
    obtain ⟨_, rfl⟩ := (after?_eq_some_iff rfl).1 hbefore
    obtain ⟨_, rfl⟩ := (after?_eq_some_iff rfl).1 he
    refine ⟨_, hbefore, fun s => ?_⟩
    show (Execution.after _ past).times.of s ≤ (Execution.after _ (call :: past)).times.of s
    rw [htimes, htimes, spent_cons]
    exact Nat.le_add_right _ _
  · obtain ⟨_, rfl⟩ := (after?_eq_some_iff rfl).1 he
    exact (clamp_le_spent hmem).trans_eq (htimes past s).symm

theorem times_counted_sample :
    2 < Word.size ∧ TimesCounted sample sampleRun ∧
    (sample.after? sampleRun).map (fun e => e.snapshot.times) = some ⟨0, 40, 60, 90⟩ :=
  ⟨by decide, times_counted _ _ _ _ _ _ (by decide) _, by decide +kernel⟩

/-- Two producing tasks, of which the first reports the longest time there is: the program stops at
the report of the second. -/
theorem time_overflows :
    let finish (i elapsed : Nat) : Call :=
      .finish ⟨.ofExecution ⟨"e"⟩ i, ⟨"w"⟩, elapsed, none⟩ ⟨true, 0⟩
    let before := [finish 1 Word.top, .start ⟨true, 0⟩]
    let later := finish 2 1 :: before
    accepted .producing sample later = [Word.top, 1] ∧
    (sample.after? before).map (fun e => e.snapshot.times.producing) = some Word.top ∧
    sample.after? later = none := by
  decide +kernel

end Execution
end RenderFarm
