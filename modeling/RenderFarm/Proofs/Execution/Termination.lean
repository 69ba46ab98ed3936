import RenderFarm.Proofs.Execution.Conservation

/-!
# RenderFarm.Proofs.Execution.Termination

An execution that has been started always waits for some task, and only so many reports on its
tasks can come before it is over.

* `potential`: a bound on the reports that are still to come. A report takes at least one away;
  only a lost weight adds to it.
* `Paced n l e`: after `n` reports and a lost weight of `l`, there is still room for the potential.
* `execution_terminates`: the two together, for every run and for every endless stream of calls.
-/

namespace RenderFarm
namespace Execution

/-- How often a merge may be reported to be over, at most. -/
def patience (e : Execution) : Nat := e.policy.reducingRetries + 1

/-- The reports that the outstanding intermediate merges are good for. -/
def mergesLeft (e : Execution) : Nat :=
  (e.merging.values.map fun g => e.patience - g.attempts).sum

/-- The reports that the final merge is good for, outstanding or not. -/
def lastLeft (e : Execution) : Nat :=
  match e.finalMerge with
  | some (_, g) => e.patience - g.attempts
  | none => e.patience

/-- A bound on the reports to come if no weight is lost any more: each unit to be produced takes one
report, and it or what becomes of it goes through an intermediate merge. -/
def potential (e : Execution) : Nat :=
  (e.target - e.finished) + (e.failureLimit - e.failures)
    + (e.target - e.finished + e.unreduced.length) * e.patience + e.mergesLeft + e.lastLeft

/-- A bound on the reports of a run that loses a weight of `l`. -/
def reportLimit (e : Execution) (l : Nat) : Nat :=
  (e.parallel + e.failureLimit + l) + (e.parallel + 2 * l + 1) * e.patience

structure Paced (n l : Nat) (e : Execution) : Prop where
  failures : e.failures ≤ e.failureLimit
  merging : ∀ g ∈ e.merging.values, g.attempts < e.patience
  last : ∀ m g, e.finalMerge = some (m, g) → g.attempts < e.patience
  pace : n + e.potential ≤ e.reportLimit l

/-! ## Issuing -/

theorem values_attempts_insert {m : TaskName} {g : MergeGroup}
    {rest : OrderedMap TaskName MergeGroup} (hm : m ∉ rest.keys) (k : Nat) :
    ((rest.insert m g).values.map fun g => k - g.attempts).sum
      = (rest.values.map fun g => k - g.attempts).sum + (k - g.attempts) := by
  simp [OrderedMap.values_insert_new g hm]

theorem mergesLeft_find {e : Execution} {m : TaskName} {g : MergeGroup}
    (hg : e.merging.find? m = some g) :
    e.mergesLeft = (e.patience - g.attempts)
      + ((e.merging.erase m).values.map fun g => e.patience - g.attempts).sum :=
  ((OrderedMap.values_perm_erase hg).map _).sum_nat.trans (by simp)

theorem potential_withMerge {e : Execution} (hs : Sound e) (hu : e.unreduced ≠ []) :
    e.withMerge.potential ≤ e.potential := by
  have hnew : e.withMerge.mergesLeft = e.mergesLeft + e.patience :=
    values_attempts_insert hs.fresh_merging e.patience
  have hlen := Nat.le_mul_of_pos_left e.patience (List.length_pos_iff.2 hu)
  have hsame : e.withMerge.lastLeft = e.lastLeft := rfl
  unfold potential
  rw [hnew, hsame, Nat.add_mul, Nat.add_mul]
  simp only [withMerge, patience, failureLimit, List.length_nil, Nat.zero_mul] at *
  omega

theorem potential_withLast {e : Execution} (hf : e.finalMerge = none) :
    e.withLast.potential = e.potential := by
  simp [potential, lastLeft, mergesLeft, withLast, patience, failureLimit, hf]

theorem Paced.issues {n l : Nat} {e e' : Execution} {ts : List Task} (hi : Issues e ts e')
    (hs : Sound e) (h : Paced n l e) : Paced n l e' := by
  induction hi with
  | nothing => exact h
  | @merge e e' ts hf hu hi ih =>
    refine ih ((withMerge_accounts hs).sound hs) ⟨h.failures, ?_, h.last, ?_⟩
    · intro g hg
      simp only [withMerge, OrderedMap.values_insert_new _ hs.fresh_merging, List.mem_append,
        List.mem_singleton] at hg
      rcases hg with hg | rfl
      · exact h.merging g hg
      · exact Nat.succ_pos _
    · exact Nat.le_trans (Nat.add_le_add_left (potential_withMerge hs hu) n) h.pace
  | @last e hf ht hp hm hu hr =>
    refine ⟨h.failures, h.merging, ?_, ?_⟩
    · intro m g hg
      cases hg
      exact Nat.succ_pos _
    · rw [potential_withLast hf]
      exact h.pace
  | produce => exact ⟨h.failures, h.merging, h.last, h.pace⟩

/-! ## Calls -/

theorem lastLeft_pos {n l : Nat} {e : Execution} (h : Paced n l e) : 0 < e.lastLeft := by
  unfold lastLeft
  split
  · rename_i m g hf
    have := h.last m g hf
    omega
  · exact Nat.succ_pos _

theorem SameTerms.patience {e e' : Execution} (h : SameTerms e e') :
    e'.patience = e.patience := by
  simp [Execution.patience, h.policy]

theorem SameTerms.failureLimit {e e' : Execution} (h : SameTerms e e') :
    e'.failureLimit = e.failureLimit := by
  simp [Execution.failureLimit, h.policy, h.parallel]

theorem SameTerms.reportLimit {e e' : Execution} (h : SameTerms e e') (l : Nat) :
    e'.reportLimit l = e.reportLimit l := by
  simp [Execution.reportLimit, h.patience, h.failureLimit, h.parallel]

/-- A lost unit is produced again, which takes at most as many reports as the limit grows by. -/
theorem reportLimit_add (e : Execution) (l x : Nat) :
    e.reportLimit (l + x) = e.reportLimit l + x + 2 * (x * e.patience) := by
  simp only [reportLimit, Nat.add_mul, Nat.mul_add, Nat.mul_assoc]
  omega

/-- Reports are paid for by the potential; with a lost weight of `x`, by what the limit grows by
as well. -/
theorem Paced.spend {n l k x : Nat} {e e' : Execution} (h : Paced n l e) (terms : SameTerms e e')
    (failures : e'.failures ≤ e.failureLimit)
    (merging : ∀ g ∈ e'.merging.values, g.attempts < e.patience)
    (last : ∀ m g, e'.finalMerge = some (m, g) → g.attempts < e.patience)
    (potential : e'.potential + k ≤ e.potential + x + 2 * (x * e.patience)) :
    Paced (n + k) (l + x) e' := by
  have hp := terms.patience
  refine ⟨by rwa [terms.failureLimit], by rwa [hp], by rwa [hp], ?_⟩
  have hpace := h.pace
  rw [terms.reportLimit, reportLimit_add]
  omega

theorem Paced.resolve {n l : Nat} {e e' : Execution} (h : Paced n l e) (terms : SameTerms e e')
    (failures : e'.failures ≤ e.failureLimit) (merging : e'.merging = e.merging)
    (last : e'.finalMerge = e.finalMerge) (potential : e'.potential + 1 = e.potential) :
    Paced (n + 1) l e' :=
  h.spend (x := 0) terms failures (merging ▸ h.merging) (last ▸ h.last) (by omega)

/-- A success takes a report, and leaves a unit less to come and one more to be merged. -/
theorem potential_produced {e e' : Execution} (terms : SameTerms e e') (hlt : e.finished < e.target)
    (target : e'.target = e.target) (finished : e'.finished = e.finished + 1)
    (failures : e'.failures = e.failures)
    (unreduced : e'.unreduced.length = e.unreduced.length + 1)
    (merges : e'.mergesLeft = e.mergesLeft) (last : e'.lastLeft = e.lastLeft) :
    e'.potential + 1 = e.potential := by
  have hremaining : e.target - e.finished = e.target - (e.finished + 1) + 1 := by omega
  have hrest : e.target - (e.finished + 1) + (e.unreduced.length + 1)
    = e.target - e.finished + e.unreduced.length := by omega
  unfold potential
  rw [terms.patience, terms.failureLimit, target, finished, failures, unreduced, merges, last,
    hrest]
  omega

/-- A failure takes a report that counts for it alone; the unit is still to come. -/
theorem potential_missed {e e' : Execution} (terms : SameTerms e e')
    (hlt : e.failures < e.failureLimit)
    (remaining : e'.target - e'.finished = e.target - e.finished)
    (failures : e'.failures = e.failures + 1) (unreduced : e'.unreduced = e.unreduced)
    (merges : e'.mergesLeft = e.mergesLeft) (last : e'.lastLeft = e.lastLeft) :
    e'.potential + 1 = e.potential := by
  unfold potential
  rw [terms.patience, terms.failureLimit, remaining, failures, unreduced, merges, last]
  omega

/-- A merge is over and a weight of `x` is lost. -/
theorem potential_credit {e e' : Execution} {x : Nat} (terms : SameTerms e e')
    (remaining : e'.target - e'.finished = e.target - e.finished + x)
    (failures : e'.failures = e.failures) (unreduced : e'.unreduced = e.unreduced)
    (left : e'.mergesLeft + e'.lastLeft + 1 ≤ e.mergesLeft + e.lastLeft + x * e.patience) :
    e'.potential + 1 ≤ e.potential + x + 2 * (x * e.patience) := by
  unfold potential
  rw [terms.patience, terms.failureLimit, remaining, failures, unreduced]
  simp only [Nat.add_mul] at *
  omega

theorem Paced.credit {n l x : Nat} {e e' : Execution} (h : Paced n l e) (terms : SameTerms e e')
    (remaining : e'.target - e'.finished = e.target - e.finished + x)
    (failures : e'.failures = e.failures) (unreduced : e'.unreduced = e.unreduced)
    (merging : ∀ g ∈ e'.merging.values, g.attempts < e.patience) (last : e'.finalMerge = none)
    (left : e'.mergesLeft + e'.lastLeft + 1 ≤ e.mergesLeft + e.lastLeft + x * e.patience) :
    Paced (n + 1) (l + x) e' :=
  h.spend terms (failures ▸ h.failures) merging (by simp [last])
    (potential_credit terms remaining failures unreduced left)

/-- What is lost is added to what is still to be produced. -/
theorem Balanced.remaining_add {m l : Nat} {e : Execution} (hb : Balanced m l e) (x : Nat) :
    e.target + x - e.finished = e.target - e.finished + x := by
  have hroom := hb.room
  omega

theorem merging_erase {e : Execution} {n : TaskName} {g g' : MergeGroup}
    (hg : e.merging.find? n = some g) (h : g' ∈ (e.merging.erase n).values) :
    g' ∈ e.merging.values :=
  (OrderedMap.values_perm_erase hg).mem_iff.2 (List.mem_cons_of_mem _ h)

theorem Paced.attempts {n l : Nat} {e : Execution} (h : Paced n l e) {m : TaskName}
    {g : MergeGroup} (hg : e.merging.find? m = some g) : g.attempts < e.patience :=
  h.merging g ((OrderedMap.values_perm_erase hg).mem_iff.2 List.mem_cons_self)

/-- A report leaves room for the reports to come, unless too many producing tasks have failed. -/
theorem Step.paced {e : Execution} {call : Call} {lost missed m l n : Nat} {ended : List TaskName}
    {change : Execution × List Action} {next : Option Context}
    (hstep : Step e call lost missed ended change next) (hs : Sound e) (hb : Balanced m l e)
    (h : Paced n l e) (ht : change.1.isTerminal = false) (hf : change.1.failures ≤ change.1.failureLimit) :
    Paced (n + ended.length) (l + lost) change.1 := by
  cases hstep with
  | ignored => exact h
  | started => exact h
  | fetched => exact ⟨h.failures, h.merging, h.last, h.pace⟩
  | @produced c _ _ hp =>
    have hpos := List.length_pos_of_mem hp
    have hroom := hb.room
    have hlength : (e.unreduced ++ [c.output 1]).length = e.unreduced.length + 1 := by simp
    refine h.resolve ⟨rfl, rfl, rfl, rfl, rfl⟩ h.failures rfl rfl ?_
    exact potential_produced ⟨rfl, rfl, rfl, rfl, rfl⟩ (by omega) rfl rfl rfl hlength rfl rfl
  | @merged c _ g _ _ hg =>
    have hleft := mergesLeft_find hg
    have hattempts := h.attempts hg
    refine h.credit ⟨rfl, rfl, rfl, rfl, rfl⟩ (hb.remaining_add _) rfl rfl
      (fun g' hg' => h.merging g' (merging_erase hg hg')) (hb.no_last_of_merging hg) ?_
    show ((e.merging.erase c.task).values.map fun g => e.patience - g.attempts).sum
      + e.lastLeft + 1 ≤ _
    omega
  | completed => cases ht
  | @cutShort c _ g _ _ _ hfinal hlt =>
    have hattempts := h.last _ _ hfinal
    -- the final merge starts afresh, which the unit that is lost at least pays for
    refine h.credit ⟨rfl, rfl, rfl, rfl, rfl⟩ (hb.remaining_add _) rfl rfl h.merging rfl ?_
    have hlost := Nat.le_mul_of_pos_left e.patience (Nat.sub_pos_of_lt hlt)
    have hlast : e.lastLeft = e.patience - g.attempts := by simp [lastLeft, hfinal]
    show e.mergesLeft + e.patience + 1 ≤ _
    omega
  | missed _ hp =>
    have hpos := List.length_pos_of_mem hp
    have hremaining := Nat.add_sub_add_right e.target 1 e.finished
    refine h.resolve ⟨rfl, rfl, rfl, rfl, rfl⟩ hf rfl rfl ?_
    exact potential_missed ⟨rfl, rfl, rfl, rfl, rfl⟩ hf hremaining rfl rfl rfl rfl
  | @retried task _ _ g _ _ hg hr =>
    have hleft := mergesLeft_find hg
    have hfresh : e.freshName ∉ (e.merging.erase task).keys := fun hn =>
      hs.fresh_merging ((OrderedMap.keys_perm_erase hg).mem_iff.2 (List.mem_cons_of_mem _ hn))
    have hagain := values_attempts_insert hfresh (g := { g with attempts := g.attempts + 1 })
      e.patience
    refine h.credit ⟨rfl, rfl, rfl, rfl, rfl⟩ rfl rfl rfl ?_ (hb.no_last_of_merging hg) ?_
    · intro g' hg'
      simp only [OrderedMap.values_insert_new _ hfresh, List.mem_append, List.mem_singleton] at hg'
      rcases hg' with hg' | rfl
      · exact h.merging g' (merging_erase hg hg')
      · exact Nat.lt_succ_of_le hr
    · have hr : g.attempts + 1 < e.patience := Nat.lt_succ_of_le hr
      show (((e.merging.erase task).insert e.freshName
        { g with attempts := g.attempts + 1 }).values.map fun g => e.patience - g.attempts).sum
        + e.lastLeft + 1 ≤ _
      rw [hagain]
      simp only [Nat.zero_mul]
      omega
  | @abandoned task _ _ g _ _ hg hr =>
    have hleft := mergesLeft_find hg
    have hattempts := h.attempts hg
    refine h.credit ⟨rfl, rfl, rfl, rfl, rfl⟩ (hb.remaining_add _) rfl rfl
      (fun g' hg' => h.merging g' (merging_erase hg hg')) (hb.no_last_of_merging hg) ?_
    show ((e.merging.erase task).values.map fun g => e.patience - g.attempts).sum
      + e.lastLeft + 1 ≤ _
    omega
  | @finalRetried _ _ _ g _ _ _ hfinal hr =>
    have hr : g.attempts + 1 < e.patience := Nat.lt_succ_of_le hr
    have hlast : e.lastLeft = e.patience - g.attempts := by simp [lastLeft, hfinal]
    refine h.spend ⟨rfl, rfl, rfl, rfl, rfl⟩ h.failures h.merging ?_
      (potential_credit ⟨rfl, rfl, rfl, rfl, rfl⟩ rfl rfl rfl ?_)
    · intro m g' hg'
      cases hg'
      exact hr
    · show e.mergesLeft + (e.patience - (g.attempts + 1)) + 1
        ≤ e.mergesLeft + e.lastLeft + 0 * e.patience
      omega
  | finalAbandoned => cases ht

theorem length_overBy_le (e : Execution) (call : Call) : (e.overBy call).length ≤ 1 := by
  cases call with
  | finish | fail => simp only [overBy]; split <;> simp
  | start | fetched => exact Nat.zero_le _

/-- Only a change that the execution moves forward after can count a failure. -/
theorem Step.failures {e : Execution} {call : Call} {lost missed : Nat} {ended : List TaskName}
    {change : Execution × List Action} (hstep : Step e call lost missed ended change none) :
    change.1.failures = e.failures := by
  cases hstep <;> rfl

theorem respond_paced {e : Execution} {m l n : Nat} (hs : Sound e) (hb : Balanced m l e)
    {call : Call} (h : Paced n l e) (ht : (e.respond call).1.isTerminal = false) :
    Paced (n + (e.overBy call).length) (l + e.lostBy call) (e.respond call).1 := by
  obtain ⟨change, next, hstep, heq⟩ := respond_step e call
  have hterms := (hstep.accounts hs).terms
  rw [heq] at ht ⊢
  cases next with
  | none =>
    refine hstep.paced hs hb h ht ?_
    rw [hstep.failures, hterms.failureLimit]
    exact h.failures
  | some ctx =>
    rcases advance_cases hstep.running ctx with ⟨reason, ha⟩ | ⟨hf, ts, e', ha, hi, _⟩
    · simp [proceed, andAdvance, ha, failWith, isTerminal, Phase.isTerminal] at ht
    · have hp := hstep.paced hs hb h hstep.running hf
      simp only [proceed, andAdvance, ha]
      exact hp.issues hi ((hstep.accounts hs).sound hs)

/-- A report that counts is within the limit even if the execution ends with it. -/
theorem Paced.reports {n l : Nat} {e : Execution} (h : Paced n l e) (call : Call) :
    n + (e.overBy call).length ≤ e.reportLimit (l + e.lostBy call) := by
  have hone := length_overBy_le e call
  have hlast := lastLeft_pos h
  have hpace := h.pace
  rw [reportLimit_add]
  unfold potential at hpace
  omega

theorem create_paced (policy : ExecutionPolicy) (name : ExecutionName) (session : SessionName)
    (parallel : Nat) (fetches : Bool) (now : Nat) :
    Paced 0 0 (create policy name session parallel fetches now) := by
  refine ⟨Nat.zero_le _, ?_, ?_, ?_⟩
  · intro g hg
    cases hg
  · intro m g hg
    cases hg
  · generalize hk : (create policy name session parallel fetches now).failureLimit = k
    show 0 + (parallel + (_ - 0) + parallel * (policy.reducingRetries + 1) + 0
      + (policy.reducingRetries + 1)) ≤ parallel + _ + 0 + (parallel + 0 + 1)
        * (policy.reducingRetries + 1)
    rw [hk, Nat.add_mul _ 1]
    omega

section Runs

variable {e : Execution} (hs : Sound e) (hb : Balanced 0 0 e) (h : Paced 0 0 e)

include hs hb h

theorem after_paced (past : List Call) :
    e.resolved past ≤ e.reportLimit (e.lost past) ∧
    ((e.after past).isTerminal = false →
      Paced (e.resolved past) (e.lost past) (e.after past)) := by
  induction past with
  | nil => exact ⟨Nat.zero_le _, fun _ => h⟩
  | cons call past ih =>
    obtain ⟨hreports, hpaced⟩ := ih
    cases hover : (e.after past).isTerminal with
    | true =>
      have hlost : e.lost (call :: past) = e.lost past := by
        simp [lost, tally, lostBy_terminal hover]
      have hresolved : e.resolved (call :: past) = e.resolved past := by
        simp [resolved, tally, overBy_terminal hover]
      rw [hlost, hresolved]
      refine ⟨hreports, ?_⟩
      simp only [after, respond_terminal hover]
      exact hpaced
    | false =>
      have hterms := after_terms hs past
      have hbooks := (after_books hs hb past).running hover
      refine ⟨?_, fun hr => respond_paced (after_sound hs past) hbooks (hpaced hover) hr⟩
      have := (hpaced hover).reports call
      rwa [hterms.reportLimit] at this

end Runs

/-! ## Waiting -/

theorem outstanding_advance {e : Execution} {ctx : Context} (ht : e.isTerminal = false)
    (ht' : (e.advance ctx).1.isTerminal = false) : (e.advance ctx).1.outstanding ≠ [] := by
  rcases advance_cases ht ctx with ⟨reason, ha⟩ | ⟨_, ts, e', ha, _, ho⟩
  · rw [ha] at ht'
    cases ht'
  · rw [ha]
    exact ho

/-- An execution that waits for some task does so after any call, unless it is over. -/
theorem outstanding_respond {e : Execution} (h : e.outstanding ≠ []) {call : Call}
    (ht : (e.respond call).1.isTerminal = false) : (e.respond call).1.outstanding ≠ [] := by
  obtain ⟨change, next, hstep, heq⟩ := respond_step e call
  rw [heq] at ht ⊢
  cases next with
  | some ctx => exact outstanding_advance hstep.running ht
  | none =>
    generalize e.lostBy call = x, e.missedBy call = y, e.overBy call = z at hstep
    cases hstep with
    | ignored => exact h
    | completed | finalAbandoned => cases ht
    | finalRetried => simp [proceed, outstanding]

theorem outstanding_started (e : Execution) (ctx : Context) (past : List Call)
    (ht : (e.after (past ++ [.start ctx])).isTerminal = false) :
    (e.after (past ++ [.start ctx])).outstanding ≠ [] := by
  induction past with
  | nil =>
    cases hover : e.isTerminal with
    | true =>
      simp only [List.nil_append, after, respond_terminal hover] at ht
      simp [hover] at ht
    | false => exact outstanding_advance hover ht
  | cons call past ih =>
    cases hover : (e.after (past ++ [.start ctx])).isTerminal with
    | true =>
      simp only [List.cons_append, after, respond_terminal hover] at ht
      simp [hover] at ht
    | false => exact outstanding_respond (ih hover) ht

/-! ## Endless streams of calls -/

/-- The first calls of a stream, the latest first. -/
def history (calls : Nat → Call) : Nat → List Call
  | 0 => []
  | n + 1 => calls n :: history calls n

theorem resolved_mono (e : Execution) (calls : Nat → Call) {n m : Nat} (h : n ≤ m) :
    e.resolved (history calls n) ≤ e.resolved (history calls m) := by
  induction h with
  | refl => exact Nat.le_refl _
  | step _ ih => exact Nat.le_trans ih (Nat.le_add_right _ _)

theorem resolved_unbounded {e : Execution} {calls : Nat → Call}
    (h : ∀ n, ∃ m, n ≤ m ∧ (e.after (history calls m)).overBy (calls m) ≠ []) (k : Nat) :
    ∃ n, k ≤ e.resolved (history calls n) := by
  induction k with
  | zero => exact ⟨0, Nat.zero_le _⟩
  | succ k ih =>
    obtain ⟨n, hn⟩ := ih
    obtain ⟨m, hm, hover⟩ := h n
    have hmono := resolved_mono e calls hm
    have hpos := List.length_pos_iff.2 hover
    refine ⟨m + 1, ?_⟩
    show k + 1 ≤ e.resolved (history calls m)
      + ((e.after (history calls m)).overBy (calls m)).length
    omega

/-- How an execution comes to its end. -/
structure Terminates (e : Execution) : Prop where
  waits : ∀ past ctx, (e.after (past ++ [.start ctx])).isTerminal = false →
    (e.after (past ++ [.start ctx])).outstanding ≠ []
  reports : ∀ past, e.resolved past ≤ (e.parallel + e.failureLimit + e.lost past)
      + (e.parallel + 2 * e.lost past + 1) * (e.policy.reducingRetries + 1)
  ends : ∀ calls bound, (∀ n, e.lost (history calls n) ≤ bound) →
    (∀ n, (e.after (history calls n)).isTerminal = false →
      ∃ m, n ≤ m ∧ (e.after (history calls m)).overBy (calls m) ≠ []) →
    ∃ n, (e.after (history calls n)).isTerminal = true

theorem reports_le (policy : ExecutionPolicy) (name : ExecutionName) (session : SessionName)
    (parallel : Nat) (fetches : Bool) (now : Nat) (past : List Call) :
    (create policy name session parallel fetches now).resolved past
      ≤ (create policy name session parallel fetches now).reportLimit
          ((create policy name session parallel fetches now).lost past) :=
  (after_paced (create_sound policy name session parallel fetches now)
    (create_balanced policy name session parallel fetches now)
    (create_paced policy name session parallel fetches now) past).1

/-- After it was started, an execution always waits for some task until it is over; and it is over
after a number of reports that is bounded by the weight lost. -/
theorem execution_terminates (policy : ExecutionPolicy) (name : ExecutionName)
    (session : SessionName) (parallel : Nat) (fetches : Bool) (now : Nat) :
    Terminates (create policy name session parallel fetches now) := by
  refine ⟨fun past ctx => outstanding_started _ ctx past,
    reports_le policy name session parallel fetches now, ?_⟩
  intro calls bound hlost hkeeps
  false_or_by_contra
  rename_i hnever
  have hrunning : ∀ n, ((create policy name session parallel fetches now).after
      (history calls n)).isTerminal = false := by
    intro n
    simpa using fun ht => hnever ⟨n, ht⟩
  obtain ⟨n, hn⟩ := resolved_unbounded (fun n => hkeeps n (hrunning n))
    ((create policy name session parallel fetches now).reportLimit bound + 1)
  have hle := reports_le policy name session parallel fetches now (history calls n)
  obtain ⟨x, hx⟩ := Nat.exists_eq_add_of_le (hlost n)
  have hmono := reportLimit_add (create policy name session parallel fetches now)
    ((create policy name session parallel fetches now).lost (history calls n)) x
  rw [← hx] at hmono
  omega

theorem execution_terminates_sample :
    Terminates sample ∧ sample.resolved sampleRun = 6 ∧
    (sample.after sampleRun).isTerminal = true :=
  ⟨execution_terminates _ _ _ _ _ _, by decide +kernel, by decide +kernel⟩

end Execution
end RenderFarm
