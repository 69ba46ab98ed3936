import RenderFarm.Proofs.Execution.Ending

/-!
# RenderFarm.Proofs.Execution.Production

How many producing tasks an execution issues: those that are missing, or one at a time while it is
throttled.

* `takes`: the calls that an execution answers; `taken_step` says how it goes on after one.
* `Renders e ts e'`: some producing tasks are over, and those among `ts` are outstanding with the
  rest.
* `advance_missing`: moving forward issues what is missing, unless only the final merge is left.
* `filled`, `throttled_alone`: what a call that is taken leaves outstanding.
* `missing_produced`: this, and the bounds that follow from it, in every run.
-/

namespace RenderFarm
namespace Execution

/-- The producing tasks among the tasks. -/
def renders (ts : List Task) : List Task := ts.filter fun t => t.kind = .producing

def Call.context : Call → Context
  | .start ctx | .finish _ ctx | .fail _ _ ctx | .fetched _ _ ctx => ctx

/-- The execution runs, and the call starts it or reports on a task that is outstanding. -/
def takes (e : Execution) : Call → Bool
  | .start _ => !e.isTerminal
  | .finish c _ => !e.isTerminal && c.task ∈ e.outstanding
  | .fail task _ _ => !e.isTerminal && task ∈ e.outstanding
  | .fetched task _ _ => !e.isTerminal && task ∈ e.producing

variable {e e' : Execution} {ts : List Task} {call : Call} {past : List Call}

theorem renders_append (ts us : List Task) : renders (ts ++ us) = renders ts ++ renders us :=
  List.filter_append ts us

theorem renders_producing (e : Execution) (n : Nat) :
    renders ((List.range n).map e.producingTask) = (List.range n).map e.producingTask := by
  refine List.filter_eq_self.2 fun t ht => ?_
  obtain ⟨i, _, rfl⟩ := List.mem_map.1 ht
  rfl

/-! ## One call -/

structure Renders (e : Execution) (ts : List Task) (e' : Execution) : Prop where
  producing : ∃ left, left.Sublist e.producing ∧
    e'.producing = left ++ (renders ts).map Task.name ∧
    e'.finished + left.length = e.finished + e.producing.length

theorem Renders.count (h : Renders e ts e') :
    e'.finished + e'.producing.length = e.finished + e.producing.length + (renders ts).length := by
  obtain ⟨left, _, hp, hlen⟩ := h.producing
  rw [hp, List.length_append, List.length_map]
  omega

/-- Moving forward ends no task. -/
theorem Issues.renders (h : Issues e ts e') :
    e'.producing = e.producing ++ (renders ts).map Task.name ∧ e'.finished = e.finished ∧
      e'.target = e.target := by
  induction h with
  | nothing => exact ⟨by simp [Execution.renders], rfl, rfl⟩
  | merge _ _ _ ih => exact ih
  | last => exact ⟨(List.append_nil _).symm, rfl, rfl⟩
  | produce =>
    rw [renders_producing]
    exact ⟨rfl, rfl, rfl⟩

theorem advance_renders (e : Execution) (ctx : Context) :
    (e.advance ctx).1.producing =
        e.producing ++ (renders (tasksOf (e.advance ctx).2)).map Task.name ∧
      (e.advance ctx).1.finished = e.finished ∧ (e.advance ctx).1.target = e.target := by
  rcases advance_issues e ctx with ⟨reason, ha⟩ | ⟨ts, e', ha, hi⟩
  · rw [ha]
    exact ⟨(List.append_nil _).symm, rfl, rfl⟩
  · rw [ha, tasksOf_enqueue]
    exact hi.renders

section Calls

variable {lost missed : Nat} {ended : List TaskName} {change : Execution × List Action}
  {next : Option Context} {ctx : Context}

/-- The end of a task issues no producing task before the execution moves forward. -/
theorem Step.renders (hstep : Step e call lost missed ended change next) :
    renders (tasksOf change.2) = [] ∧ change.1.producing.Sublist e.producing ∧
      change.1.finished + change.1.producing.length = e.finished + e.producing.length := by
  cases hstep with
  | produced _ hp =>
    have hlen := (List.perm_cons_erase hp).length_eq
    rw [List.length_cons] at hlen
    rw [tasksOf_adaptTimeout]
    exact ⟨rfl, List.erase_sublist, by dsimp only; omega⟩
  | missed _ hp =>
    have hlen := (List.perm_cons_erase hp).length_eq
    rw [List.length_cons] at hlen
    exact ⟨rfl, List.erase_sublist, by dsimp only; omega⟩
  | _ => exact ⟨rfl, .refl _, rfl⟩

theorem Step.context (hstep : Step e call lost missed ended change (some ctx)) :
    call.context = ctx := by
  cases hstep <;> rfl

theorem respond_renders (e : Execution) (call : Call) :
    Renders e (tasksOf (e.respond call).2) (e.respond call).1 := by
  obtain ⟨change, next, hstep, heq⟩ := respond_step e call
  obtain ⟨hnone, hsub, hlen⟩ := hstep.renders
  rw [heq]
  cases next with
  | none => exact ⟨change.1.producing, hsub, by simp [proceed, hnone], hlen⟩
  | some ctx =>
    obtain ⟨hp, hf, _⟩ := advance_renders change.1 ctx
    simp only [proceed, andAdvance, tasksOf_append]
    refine ⟨change.1.producing, hsub, ?_, ?_⟩
    · rw [renders_append, hnone, List.nil_append]
      exact hp
    · rw [hf]
      exact hlen

/-- What is missing is issued, unless the execution is over or waits for its final merge. -/
theorem advance_missing (ht : e.isTerminal = false) (ctx : Context) :
    (renders (tasksOf (e.advance ctx).2) = [] ∧
      ((e.advance ctx).1.isTerminal = true ∨ (e.advance ctx).1.finalMerge ≠ none)) ∨
    ((renders (tasksOf (e.advance ctx).2)).length = e.missing ctx ∧
      (e.advance ctx).1.phase = e.phase) := by
  have hproduce : ∀ e : Execution, (renders (tasksOf (e.startProducing (e.missing ctx)).2)).length =
      e.missing ctx := by
    intro e
    simp only [startProducing, tasksOf_enqueue, renders_producing, List.length_map,
      List.length_range]
  simp only [advance, ht, Bool.false_eq_true, if_false]
  split
  · exact .inl ⟨rfl, .inl rfl⟩
  split
  · rename_i hf
    exact .inl ⟨rfl, .inr (Option.isSome_iff_ne_none.1 hf)⟩
  rcases mergeWaiting_cases e with ⟨hw, _⟩ | ⟨hw, _⟩
  · simp only [hw, List.nil_append]
    split
    · split
      · exact .inl ⟨rfl, .inl rfl⟩
      · exact .inl ⟨rfl, .inr (by simp [startFinal])⟩
    · exact .inr ⟨hproduce e, rfl⟩
  · -- a merge that is issued as well is no producing task
    simp only [hw, merging_withMerge_ne, Bool.and_false, Bool.false_eq_true, if_false,
      tasksOf_append, renders_append]
    exact .inr ⟨hproduce e.withMerge, rfl⟩

/-- Whoever is told of the end of a task moves forward, ends, or tries the final merge again. -/
theorem Step.settled (hstep : Step e call lost missed ended change none) (hended : ended ≠ []) :
    change.1.isTerminal = true ∨ change.1.finalMerge ≠ none := by
  cases hstep with
  | ignored => exact absurd rfl hended
  | completed | finalAbandoned => exact .inl rfl
  | finalRetried => exact .inr (by simp)

theorem taken_step (h : e.takes call = true) :
    ∃ change next, Step e call (e.lostBy call) (e.missedBy call) (e.overBy call) change next ∧
      e.respond call = proceed change next ∧
      (next = none → change.1.isTerminal = true ∨ change.1.finalMerge ≠ none) := by
  cases call with
  | start ctx =>
    have ht : e.isTerminal = false := by simpa [takes] using h
    exact ⟨_, some ctx, .started ht, (proceed_nil e ctx).symm, by simp⟩
  | finish c ctx =>
    obtain ⟨change, next, hstep, heq⟩ := step_finish e c ctx
    have hover : e.overBy (.finish c ctx) ≠ [] := by
      rw [takes] at h
      simp [overBy, h]
    refine ⟨change, next, hstep, heq, ?_⟩
    rintro rfl
    exact hstep.settled hover
  | fail task reason ctx =>
    obtain ⟨change, next, hstep, heq⟩ := step_fail e task reason ctx
    have hover : e.overBy (.fail task reason ctx) ≠ [] := by
      rw [takes] at h
      simp [overBy, h]
    refine ⟨change, next, hstep, heq, ?_⟩
    rintro rfl
    exact hstep.settled hover
  | fetched task elapsed ctx =>
    simp only [takes, Bool.and_eq_true, Bool.not_eq_true', decide_eq_true_eq] at h
    refine ⟨_, some ctx, .fetched h.1 h.2, ?_, by simp⟩
    rw [proceed_nil]
    simp [respond, fetchingFinished, h.1, h.2, leaveFetching_eq]

end Calls

theorem respond_ended (hover : (e.respond call).1.isTerminal = true) :
    renders (tasksOf (e.respond call).2) = [] := by
  obtain ⟨change, next, hstep, heq⟩ := respond_step e call
  have hnone := hstep.renders.1
  rw [heq] at hover ⊢
  cases next with
  | none => exact hnone
  | some ctx =>
    simp only [proceed, andAdvance, tasksOf_append, renders_append, hnone, List.nil_append]
      at hover ⊢
    rcases advance_issues change.1 ctx with ⟨reason, ha⟩ | ⟨ts, e', ha, hi⟩
    · rw [ha]
      rfl
    · rw [ha, hi.isTerminal hstep.running] at hover
      cases hover

/-! ## Throttle -/

theorem missing_throttled {ctx : Context} (h : e.throttled ctx = true) :
    e.missing ctx ≤ 1 ∧ (e.producing ≠ [] → e.missing ctx = 0) := by
  simp only [missing, h, if_true]
  cases e.producing with
  | nil => exact ⟨Nat.min_le_right _ _, fun hne => absurd rfl hne⟩
  | cons n rest => exact ⟨Nat.zero_le _, fun _ => rfl⟩

/-- A throttled execution issues a producing task only if none is outstanding, and then one. -/
theorem advance_throttled (ht : e.isTerminal = false) {ctx : Context} (hfetches : e.fetches = true)
    (hphase : (e.advance ctx).1.phase = .fetching ∨ ctx.cacheWarm = false) :
    renders (tasksOf (e.advance ctx).2) = [] ∨
    ∃ t, renders (tasksOf (e.advance ctx).2) = [t] ∧ (e.advance ctx).1.producing = [t.name] := by
  rcases advance_missing ht ctx with ⟨hnone, _⟩ | ⟨hlen, hsame⟩
  · exact .inl hnone
  have hthrottled : e.throttled ctx = true := by
    rw [hsame] at hphase
    simpa [throttled, hfetches] using hphase
  obtain ⟨hone, hsingle⟩ := missing_throttled hthrottled
  cases hr : renders (tasksOf (e.advance ctx).2) with
  | nil => exact .inl rfl
  | cons t rest =>
    rw [hr, List.length_cons] at hlen
    have hrest : rest = [] := List.length_eq_zero_iff.1 (by omega)
    have hempty : e.producing = [] := by
      by_contra hne
      have := hsingle hne
      omega
    refine .inr ⟨t, by rw [hrest], ?_⟩
    rw [(advance_renders e ctx).1, hr, hrest, hempty]
    rfl

theorem respond_throttled (hs : Sound e) (call : Call) (hfetches : e.fetches = true)
    (hphase : (e.respond call).1.phase = .fetching ∨ call.context.cacheWarm = false) :
    renders (tasksOf (e.respond call).2) = [] ∨
    ∃ t, renders (tasksOf (e.respond call).2) = [t] ∧ (e.respond call).1.producing = [t.name] := by
  obtain ⟨change, next, hstep, heq⟩ := respond_step e call
  have hnone := hstep.renders.1
  rw [heq] at hphase ⊢
  cases next with
  | none => exact .inl hnone
  | some ctx =>
    rw [hstep.context] at hphase
    simp only [proceed, andAdvance, tasksOf_append, renders_append, hnone, List.nil_append]
    refine advance_throttled hstep.running ?_ hphase
    rw [(hstep.accounts hs).terms.fetches, hfetches]

/-! ## Runs -/

/-- Which producing tasks are issued and outstanding at each point of a run. -/
structure Production (e : Execution) (past : List Call) : Prop where
  /-- A call that is taken and is not throttled leaves all that is missing outstanding. -/
  filled : ∀ call earlier, call :: earlier <:+ past → (e.after earlier).takes call = true →
    (e.after (call :: earlier)).isTerminal = false →
    (e.fetches = false ∨
      (e.after (call :: earlier)).phase ≠ .fetching ∧ call.context.cacheWarm = true) →
    (e.after (call :: earlier)).finished + (e.after (call :: earlier)).producing.length =
      (e.after (call :: earlier)).target
  throttled : ∀ call earlier, call :: earlier <:+ past → e.fetches = true →
    ((e.after (call :: earlier)).phase = .fetching ∨ call.context.cacheWarm = false) →
    renders (tasksOf ((e.after earlier).respond call).2) = [] ∨
    ∃ t, renders (tasksOf ((e.after earlier).respond call).2) = [t] ∧
      (e.after (call :: earlier)).producing = [t.name]
  issued : ∀ earlier, earlier <:+ past →
    (renders (e.issued earlier)).length ≤ e.parallel + e.missed earlier + e.lost earlier
  single : e.fetches = true → (∀ call ∈ past, call.context.cacheWarm = false) →
    ∀ earlier, earlier <:+ past → (e.after earlier).producing.length ≤ 1

/-- What has been issued and is not outstanding any more is over. -/
theorem count_renders (past : List Call) :
    (e.after past).finished + (e.after past).producing.length =
      e.finished + e.producing.length + (renders (e.issued past)).length := by
  induction past with
  | nil => rfl
  | cons call past ih =>
    have hcount := (respond_renders (e.after past) call).count
    simp only [issued, emitted, tasksOf_append, renders_append, List.length_append] at ih ⊢
    rw [after, hcount, ih]
    omega

section Runs

variable (h : Unbegun e)

include h

theorem filled (htaken : (e.after past).takes call = true)
    (hrun : (e.after (call :: past)).isTerminal = false)
    (hfree : e.fetches = false ∨
      (e.after (call :: past)).phase ≠ .fetching ∧ call.context.cacheWarm = true) :
    (e.after (call :: past)).finished + (e.after (call :: past)).producing.length =
      (e.after (call :: past)).target := by
  have hrunning := after_running h hrun
  have hroom := hrunning.books.room
  -- nothing is missing once the final merge is outstanding
  have hlast : (e.after (call :: past)).finalMerge ≠ none →
      (e.after (call :: past)).finished + (e.after (call :: past)).producing.length =
        (e.after (call :: past)).target := by
    intro hf
    obtain ⟨hp, _, _, _, htarget⟩ := hrunning.books.last hf
    simp only [hp, List.length_nil] at hroom ⊢
    omega
  obtain ⟨change, next, hstep, heq, hsettled⟩ := taken_step htaken
  have hterms := (after_terms h.sound past).trans (hstep.accounts (after_sound h.sound past)).terms
  rw [after, heq] at hrun hfree hroom hlast ⊢
  cases next with
  | none =>
    rcases hsettled rfl with hover | hf
    · cases hover.symm.trans hrun
    · exact hlast hf
  | some ctx =>
    obtain ⟨hp, hf, htarget⟩ := advance_renders change.1 ctx
    simp only [proceed, andAdvance] at hrun hfree hroom hlast ⊢
    rcases advance_missing hstep.running ctx with ⟨_, hover | hmerge⟩ | ⟨hlen, hphase⟩
    · cases hover.symm.trans hrun
    · exact hlast hmerge
    · have hthrottled : change.1.throttled ctx = false := by
        rw [hphase, hstep.context, ← hterms.fetches] at hfree
        rcases hfree with hno | ⟨hleft, hwarm⟩
        · simp [throttled, hno]
        · simp [throttled, hleft, hwarm]
      have hmissing : change.1.missing ctx =
          change.1.target - change.1.finished - change.1.producing.length := by
        simp [missing, hthrottled]
      have hlength := congrArg List.length hp
      rw [List.length_append, List.length_map, hlen, hmissing] at hlength
      omega

/-- No call that ends the execution issues a producing task, and no other goes beyond what is
wanted. -/
theorem renders_le (past : List Call) :
    (e.after past).finished + (e.after past).producing.length ≤ e.wanted past := by
  induction past with
  | nil => exact h.books.room
  | cons call past ih =>
    cases ht : (e.after (call :: past)).isTerminal with
    | false =>
      have hrunning := after_running h ht
      have hroom := hrunning.books.room
      have htarget : e.target = e.parallel := h.books.target
      rwa [hrunning.books.target, hrunning.terms.parallel, ← htarget] at hroom
    | true =>
      have hcount := (respond_renders (e.after past) call).count
      rw [respond_ended ht, List.length_nil, Nat.add_zero] at hcount
      rw [after, hcount]
      exact Nat.le_trans ih (wanted_le e call past)

theorem single_cold {past : List Call} (hfetches : e.fetches = true)
    (hcold : ∀ call ∈ past, call.context.cacheWarm = false) (hnone : e.producing = []) :
    (e.after past).producing.length ≤ 1 := by
  induction past with
  | nil => simp [after, hnone]
  | cons call past ih =>
    have hbefore := ih fun c hc => hcold c (List.mem_cons_of_mem _ hc)
    have hterms := after_terms h.sound past
    have hthrottled := respond_throttled (after_sound h.sound past) call
      (hterms.fetches.trans hfetches) (.inr (hcold call List.mem_cons_self))
    rcases hthrottled with hr | ⟨t, _, hp⟩
    · obtain ⟨left, hsub, hp, _⟩ := (respond_renders (e.after past) call).producing
      rw [hr, List.map_nil, List.append_nil] at hp
      rw [after, hp]
      exact Nat.le_trans hsub.length_le hbefore
    · rw [after, hp]
      exact Nat.le_refl 1

theorem production_of_unbegun (hnone : e.producing = []) (past : List Call) :
    Production e past where
  filled _ _ _ htaken hrun hfree := filled h htaken hrun hfree
  throttled call earlier _ hfetches hphase :=
    respond_throttled (after_sound h.sound earlier) call
      ((after_terms h.sound earlier).fetches.trans hfetches) hphase
  issued earlier _ := by
    have hle := renders_le h earlier
    have htarget : e.target = e.parallel := h.books.target
    rw [count_renders, wanted, htarget] at hle
    omega
  single hfetches hcold _ hsuffix :=
    single_cold h hfetches (fun call hc => hcold call (hsuffix.subset hc)) hnone

end Runs

/-- An execution issues the producing tasks that are missing, no more and no fewer: all of them at
each call, or one at a time for as long as the resources are not at hand. -/
theorem missing_produced (policy : ExecutionPolicy) (name : ExecutionName) (session : SessionName)
    (parallel : Nat) (fetches : Bool) (now : Nat) (past : List Call) (hone : 1 ≤ parallel) :
    Production (create policy name session parallel fetches now) past :=
  production_of_unbegun (create_unbegun policy name session fetches now hone) rfl past

/-- An execution of three units whose resources are at hand, lost and at hand again. -/
def coldRun : List Call :=
  [finish 6 true, fail 4 false, finish 3 false, finish 1 true, .fetched (task 1) 5 cold,
    .start cold]
where
  cold : Context := ⟨false, 90⟩
  task (i : Nat) : TaskName := .ofExecution ⟨"e"⟩ i
  finish (i : Nat) (cacheWarm : Bool) : Call := .finish ⟨task i, ⟨"w"⟩, 20, none⟩ ⟨cacheWarm, 90⟩
  fail (i : Nat) (cacheWarm : Bool) : Call := .fail (task i) "killed" ⟨cacheWarm, 90⟩

theorem missing_produced_sample :
    let e := create sample.policy ⟨"e"⟩ ⟨"s"⟩ 3 true 0
    Production e coldRun ∧
    (List.range 7).map (fun n => (e.after (coldRun.drop n)).producing.length) =
      [0, 1, 1, 2, 1, 1, 0] ∧
    (renders (e.issued coldRun)).length = 4 ∧ e.missed coldRun = 1 :=
  ⟨missing_produced _ _ _ _ _ _ _ (by decide), by decide +kernel,
    by decide +kernel, by decide +kernel⟩

end Execution
end RenderFarm
