import RenderFarm.Proofs.Coordinator.Timeouts

/-!
# RenderFarm.Proofs.Coordinator.Expiry

Which timeouts leave a task any time at all.

* `Hasty settings first`: no least timeout is configured, and the first success took no time.
* `gives_time`: an execution gives every task and announces only times that are not zero, in every
  run in which this is not so.
* `expired_iff`: a task that is checked at the instant of its dispatch has expired if it has no time
  to run.
* `deadlines_ahead`: both, for the settings of a valid configuration.
-/

namespace RenderFarm

/-- A configuration without a timeout is refused, whatever else is wrong with it. -/
theorem Config.timeout_of_valid {config : Config} (h : config.validate = .ok ()) :
    config.execution.taskTimeoutSecs ≠ 0 := by
  intro hzero
  simp only [validate, hzero, if_true] at h
  split at h
  · cases h
  · split at h <;> cases h

theorem Settings.taskTimeout_pos {config : Config} {settings : Settings}
    (h : Settings.ofConfig config = .ok settings) : 0 < settings.taskTimeout := by
  unfold Settings.ofConfig at h
  split at h
  · cases h
  · rename_i hvalid
    cases h
    have hsecs := Config.timeout_of_valid hvalid
    exact Nat.mul_pos (Nat.pos_iff_ne_zero.2 hsecs) (by decide)

/-- At the instant of the dispatch, or before, a task has expired if it has no time to run. -/
theorem Schedule.expired_iff {s : Schedule} {n : TaskName} {ticket : Ticket} {a : Assignment}
    (h : s.current? n ticket = some a) {now : Nat} (hnow : now ≤ a.since) :
    (s.expire n ticket now).2 = .expired a ↔ a.task.timeout = 0 := by
  have hsince : now - a.since = 0 := Nat.sub_eq_zero_of_le hnow
  simp only [expire, h, hsince]
  by_cases hpos : 0 < a.task.timeout
  · simp only [hpos, if_true, reduceCtorEq, false_iff]
    exact Nat.pos_iff_ne_zero.1 hpos
  · simp only [hpos, if_false, true_iff]
    exact Nat.eq_zero_of_not_pos hpos

namespace Coordinator

open Execution (Call tasksOf timeoutsOf)

/-- No least timeout is configured, and the first success took no time. -/
def Hasty (settings : Settings) (first : Option Nat) : Prop :=
  settings.taskMinTimeout = 0 ∧ first = some 0

theorem allowance_eq_zero {settings : Settings} {elapsed : Nat} :
    allowance settings elapsed = 0 ↔ Hasty settings (some elapsed) := by
  simp only [allowance, Hasty, Option.some.injEq]
  omega

theorem producingTimeout_eq_zero {settings : Settings} (ht : 0 < settings.taskTimeout)
    {first : Option Nat} : producingTimeout settings first = 0 ↔ Hasty settings first := by
  cases first with
  | none =>
    refine iff_of_false (Nat.pos_iff_ne_zero.1 ht) ?_
    rintro ⟨_, hfirst⟩
    cases hfirst
  | some elapsed => exact allowance_eq_zero

/-! ## Executions -/

/-- The elapsed time of the first producing task that an execution was told to be finished. -/
def firstFinished (e : Execution) : List Call → Option Nat
  | [] => none
  | call :: past => (firstFinished e past).or ((e.after past).successBy call)

variable {settings : Settings} {e : Execution} {past : List Call}

/-- An execution that has issued nothing under the settings. -/
structure Unadapted (settings : Settings) (e : Execution) : Prop where
  policy : e.policy = settings.executionPolicy
  adapted : e.timeoutAdapted = false
  timeout : e.producingTimeout = settings.taskTimeout

theorem after_timing (h : Unadapted settings e) (past : List Call) :
    (e.after past).policy = settings.executionPolicy ∧
    (e.after past).timeoutAdapted = (firstFinished e past).isSome ∧
    (e.after past).producingTimeout = producingTimeout settings (firstFinished e past) := by
  induction past with
  | nil => exact ⟨h.policy, h.adapted, h.timeout⟩
  | cons call past ih => exact respond_adapted call ih

/-- What is announced is the allowance for the first success, once. -/
theorem announced_eq (h : Unadapted settings e) (past : List Call) :
    timeoutsOf (e.emitted past) =
      ((firstFinished e past).map (allowance settings)).toList := by
  induction past with
  | nil => rfl
  | cons call past ih =>
    obtain ⟨hpolicy, hadapted, _⟩ := after_timing h past
    have hretimed := Execution.respond_retimed (e.after past) call
    rw [Execution.emitted, timeoutsOf, List.filterMap_append, ← timeoutsOf, ← timeoutsOf, ih,
      firstFinished]
    generalize (e.after past).respond call = change at hretimed
    cases hretimed with
    | kept _ hnone hs =>
      rw [Execution.timeoutsOf_unadjusted hnone, List.append_nil, or_settled hadapted hs]
    | @adapted e' rest elapsed hbefore hs _ _ htimeout hnone =>
      have hone : timeoutsOf (.adjustTimeout e'.producingTimeout :: rest) =
          [e'.producingTimeout] :=
        congrArg (e'.producingTimeout :: ·) (Execution.timeoutsOf_unadjusted hnone)
      have hfirst : firstFinished e past = none := by
        rw [hadapted] at hbefore
        simpa using hbefore
      rw [hone, hfirst, hs, htimeout, hpolicy]
      rfl

/-- A task has the full timeout, or it is a producing task issued after the first success. -/
theorem issued_timeout (h : Unadapted settings e) {past : List Call} {t : Task}
    (ht : t ∈ e.issued past) : t.timeout = settings.taskTimeout ∨
      t.kind = .producing ∧ ∃ elapsed, firstFinished e past = some elapsed ∧
        t.timeout = allowance settings elapsed := by
  induction past with
  | nil => cases ht
  | cons call past ih =>
    simp only [Execution.issued, Execution.emitted, Execution.tasksOf_append, List.mem_append] at ht
    rcases ht with ht | ht
    · refine (ih ht).imp_right ?_
      rintro ⟨hkind, elapsed, hfirst, htimeout⟩
      exact ⟨hkind, elapsed, by rw [firstFinished, hfirst, Option.some_or], htimeout⟩
    · obtain ⟨hpolicy, _, hproducing⟩ := after_timing h (call :: past)
      have hfresh := (Execution.respond_fresh (e.after past) call t ht).1
      cases hkind : t.kind with
      | reducing =>
        rw [hkind] at hfresh
        exact .inl (hfresh.trans (congrArg ExecutionPolicy.taskTimeout hpolicy))
      | producing =>
        rw [hkind] at hfresh
        have htimeout := hfresh.trans hproducing
        cases hfirst : firstFinished e (call :: past) with
        | none =>
          rw [hfirst] at htimeout
          exact .inl htimeout
        | some elapsed =>
          rw [hfirst] at htimeout
          exact .inr ⟨rfl, elapsed, rfl, htimeout⟩

/-- The timeouts in a run of an execution. -/
structure GivesTime (settings : Settings) (e : Execution) (past : List Call) : Prop where
  reducing : ∀ t ∈ e.issued past, t.kind = .reducing → 0 < t.timeout
  all : ((∀ t ∈ e.issued past, 0 < t.timeout) ∧
    ∀ timeout ∈ timeoutsOf (e.emitted past), 0 < timeout) ↔
      ¬ Hasty settings (firstFinished e past)

theorem gives_time (ht : 0 < settings.taskTimeout) (h : Unadapted settings e) (past : List Call) :
    GivesTime settings e past := by
  constructor
  case reducing =>
    intro t hmem hkind
    rcases issued_timeout h hmem with htimeout | ⟨hproducing, _⟩
    · rwa [htimeout]
    · rw [hkind] at hproducing
      cases hproducing
  case all =>
    rw [announced_eq h]
    constructor
    · rintro ⟨_, hannounced⟩ ⟨hmin, hfirst⟩
      rw [hfirst] at hannounced
      have hpos := hannounced (allowance settings 0) List.mem_cons_self
      have hzero : allowance settings 0 = 0 := allowance_eq_zero.2 ⟨hmin, rfl⟩
      omega
    · intro hcalm
      have hpos : ∀ elapsed, firstFinished e past = some elapsed →
          0 < allowance settings elapsed := by
        intro elapsed hfirst
        refine Nat.pos_iff_ne_zero.2 fun hzero => hcalm ?_
        rw [hfirst]
        exact allowance_eq_zero.1 hzero
      constructor
      · intro t hmem
        rcases issued_timeout h hmem with htimeout | ⟨_, elapsed, hfirst, htimeout⟩
        · rwa [htimeout]
        · rw [htimeout]
          exact hpos elapsed hfirst
      · intro timeout hmem
        obtain ⟨elapsed, hfirst, rfl⟩ := Option.map_eq_some_iff.1 (Option.mem_toList.1 hmem)
        exact hpos elapsed hfirst

/-! ## Flights -/

theorem flight_expired (ht : 0 < settings.taskTimeout) {past : List (Moment × Event)}
    (hn : (stamps past).Nodup) {n : TaskName} {a : Assignment}
    (ha : (after settings past).schedule.inFlight.find? n = some a) {now : Nat}
    (hnow : now ≤ a.since) :
    ((after settings past).schedule.expire n a.ticket now).2 = .expired a ↔
      a.task.kind = .producing ∧ Hasty settings (firstSuccess settings a.task.execution past) := by
  have hcurrent : (after settings past).schedule.current? n a.ticket = some a :=
    Schedule.current?_eq_some.2 ⟨ha, rfl⟩
  have hmem : a.task ∈ (after settings past).tasks := Schedule.mem_tasks.2 (.inr ⟨n, a, ha, rfl⟩)
  rw [Schedule.expired_iff hcurrent hnow, timeout_eq settings hn hmem]
  cases a.task.kind with
  | producing => exact (producingTimeout_eq_zero ht).trans (and_iff_right rfl).symm
  | reducing =>
    refine iff_of_false (Nat.pos_iff_ne_zero.1 ht) ?_
    rintro ⟨hkind, _⟩
    cases hkind

structure DeadlinesAhead (settings : Settings) : Prop where
  issued : ∀ name session parallel fetches now past, GivesTime settings
    (.create settings.executionPolicy name session parallel fetches now) past
  /-- A task on a worker is found expired at the instant of its dispatch. -/
  probed : ∀ past, (stamps past).Nodup → ∀ n a,
    (after settings past).schedule.inFlight.find? n = some a → ∀ now ≤ a.since,
      (((after settings past).schedule.expire n a.ticket now).2 = .expired a ↔
        a.task.kind = .producing ∧ Hasty settings (firstSuccess settings a.task.execution past))

/-- Under a valid configuration every timeout is positive and no task expires at the instant of its
dispatch, unless no least timeout is configured and the first success is reported to have taken no
time. Then, and only then, the producing tasks of the execution have no time at all. -/
theorem deadlines_ahead {config : Config} {settings : Settings}
    (h : Settings.ofConfig config = .ok settings) : DeadlinesAhead settings where
  issued := fun _ _ _ _ _ past => gives_time (Settings.taskTimeout_pos h) ⟨rfl, rfl, rfl⟩ past
  probed := fun _ hn _ _ ha _ hnow => flight_expired (Settings.taskTimeout_pos h) hn ha hnow

theorem deadlines_ahead_sample :
    Settings.ofConfig .standard = .ok sampleSettings ∧ DeadlinesAhead sampleSettings ∧
    ((after sampleSettings sampleRun).schedule.expire ⟨"execution7-2-task4"⟩ 2 0).2
      = .remaining 300000 :=
  ⟨rfl, deadlines_ahead (show Settings.ofConfig .standard = .ok sampleSettings from rfl),
    by decide +kernel⟩

def hastySettings : Settings := { sampleSettings with taskMinTimeout := 0 }

/-- Two workers and one execution of two units, of which the first is reported finished at once. -/
def hastyRun : List (Moment × Event) :=
  [.taskFinished ⟨"w"⟩ ⟨"execution7-2-task1"⟩ 0 none none,
    .createExecution ⟨⟨"session7-1"⟩, none, 2, none⟩,
    .createSession ⟨none, [], "p", "f"⟩,
    .pong ⟨⟨"v"⟩, [], []⟩,
    .pong ⟨⟨"w"⟩, [], []⟩,
    .instancesListed (.ok [⟨⟨"w"⟩, "10.0.0.1", 5000, 9000⟩, ⟨⟨"v"⟩, "10.0.0.2", 5000, 9000⟩])].map
    fun e => (⟨"7", 0⟩, e)

/-- No least timeout is configured: with the first success the task on the other worker has no time
left, and the reminder that comes with its new timeout costs it its worker. -/
theorem expired_at_once :
    let late := (⟨"7", 0⟩, .probeTimeout ⟨"execution7-2-task2"⟩ 2) :: hastyRun
    Settings.ofConfig { Config.standard with execution := ⟨300, 0, 3, 0.1⟩ } = .ok hastySettings ∧
    adjustments hastySettings ⟨"execution7-2"⟩ hastyRun = [0] ∧
    ((after hastySettings hastyRun).schedule.inFlight.find? ⟨"execution7-2-task2"⟩).map
      (fun a => (a.worker, a.since, a.task.timeout)) = some (⟨"v"⟩, 0, 0) ∧
    (after hastySettings hastyRun).fleet.isAlive ⟨"v"⟩ = true ∧
    (after hastySettings late).fleet.isAlive ⟨"v"⟩ = false := by
  refine ⟨rfl, ?_⟩
  decide +kernel

end Coordinator
end RenderFarm
