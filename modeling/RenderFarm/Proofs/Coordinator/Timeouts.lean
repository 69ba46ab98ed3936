import RenderFarm.Proofs.Coordinator.Revisions

/-!
# RenderFarm.Proofs.Coordinator.Timeouts

All tasks of an execution have the timeout that the execution has now.

* `firstSuccess settings x past`: the elapsed time of the first producing task of the execution that
  was reported finished in a run.
* `adjustments settings x past`: the new timeouts that the execution has asked for.
* `Adapted`, `Timely`: the executions agree with the reports, and the tasks with the executions.
* `timeouts_agree`: the timeout of every task that is scheduled, in every run in which no name is
  given twice.
-/

namespace RenderFarm
namespace Coordinator

open Execution (tasksOf Action Call Sound SameTiming)

/-! ## Successes and adjustments -/

/-- The elapsed time that the event reports of a producing task which the execution waits for. -/
def success? (c : Coordinator) (x : ExecutionName) : Event → Option Nat
  | .taskFinished w n elapsed _ _ =>
    match (c.schedule.complete w n).2, c.executions.find? x with
    | some a, some e =>
      if a.task.execution = x ∧ e.isTerminal = false ∧ n ∈ e.producing then some elapsed else none
    | _, _ => none
  | _ => none

def firstSuccess (settings : Settings) (x : ExecutionName) : List (Moment × Event) → Option Nat
  | [] => none
  | (_, event) :: past =>
    (firstSuccess settings x past).or (success? (after settings past) x event)

def allowance (settings : Settings) (elapsed : Nat) : Nat :=
  max (2 * elapsed) settings.taskMinTimeout

/-- The timeout of the producing tasks of an execution with the first success. -/
def producingTimeout (settings : Settings) : Option Nat → Nat
  | none => settings.taskTimeout
  | some elapsed => allowance settings elapsed

/-- The timeouts among the actions of the execution, when the notices are told one after another. -/
def adjustmentsBy (now : Nat) (x : ExecutionName) : Coordinator → List Notice → List Nat
  | _, [] => []
  | c, notice :: notices =>
    (if notice.1 = x then
      match c.executions.find? x with
      | some e => Execution.timeoutsOf (e.respond notice.2).2
      | none => []
    else []) ++ adjustmentsBy now x (tell now c notice) notices

/-- The timeouts that the execution has asked for, the earliest first. -/
def adjustments (settings : Settings) (x : ExecutionName) : List (Moment × Event) → List Nat
  | [] => []
  | (m, event) :: past =>
    let opening := (after settings past).opening m event
    adjustments settings x past ++ adjustmentsBy m.now x opening.coordinator opening.notices

variable {settings : Settings} {past : List (Moment × Event)} {c c' : Coordinator} {m : Moment}
  {event : Event} {now : Nat} {x : ExecutionName} {call : Call} {F : ExecutionName → Option Nat}

/-! ## The executions -/

/-- The executions have the timeouts that come of the first successes `F`. -/
structure Adapted (settings : Settings) (F : ExecutionName → Option Nat) (c : Coordinator) :
    Prop where
  configured : c.settings = settings
  timing : ∀ x e, c.executions.find? x = some e → e.policy = settings.executionPolicy ∧
    e.timeoutAdapted = (F x).isSome ∧ e.producingTimeout = producingTimeout settings (F x)
  known : ∀ x, F x ≠ none → x ∈ c.executions.keys

theorem Adapted.congr (h : Adapted settings F c) (hs : c'.settings = c.settings)
    (hx : c'.executions = c.executions) : Adapted settings F c' :=
  ⟨hs.trans h.configured, hx ▸ h.timing, hx ▸ h.known⟩

/-- Once there has been a success, or if there is none now, nothing changes. -/
theorem or_settled {first now : Option Nat} {adapted : Bool} (h : adapted = first.isSome)
    (hs : adapted = true ∨ now = none) : first.or now = first := by
  rcases hs with rfl | rfl
  · obtain ⟨elapsed, rfl⟩ := Option.isSome_iff_exists.1 h.symm
    exact Option.some_or
  · exact Option.or_none

/-- What the notice reports of a producing task of the execution `y`. -/
def heard (c : Coordinator) (notice : Notice) (y : ExecutionName) : Option Nat :=
  if y = notice.1 then (c.executions.find? y).bind fun e => e.successBy notice.2 else none

theorem respond_adapted {e : Execution} {first : Option Nat} (call : Call)
    (h : e.policy = settings.executionPolicy ∧ e.timeoutAdapted = first.isSome ∧
      e.producingTimeout = producingTimeout settings first) :
    (e.respond call).1.policy = settings.executionPolicy ∧
    (e.respond call).1.timeoutAdapted = (first.or (e.successBy call)).isSome ∧
    (e.respond call).1.producingTimeout =
      producingTimeout settings (first.or (e.successBy call)) := by
  obtain ⟨hpolicy, hadapted, htimeout⟩ := h
  have hretimed := Execution.respond_retimed e call
  generalize e.respond call = change at hretimed
  cases hretimed with
  | kept hsame _ hs =>
    rw [or_settled hadapted hs]
    exact ⟨hsame.policy.trans hpolicy, hsame.adapted.trans hadapted, hsame.timeout.trans htimeout⟩
  | adapted hbefore hs hafter hpolicy' htimeout' _ =>
    have hnone : first = none := by
      rw [hadapted] at hbefore
      simpa using hbefore
    rw [hnone, Option.none_or, hs]
    refine ⟨hpolicy'.trans hpolicy, hafter, htimeout'.trans ?_⟩
    rw [hpolicy]
    rfl

theorem tell_adapted (hg : Grounded past c) (h : Adapted settings F c) (now : Nat)
    (notice : Notice) :
    Adapted settings (fun y => (F y).or (c.heard notice y)) (tell now c notice) := by
  obtain ⟨x, call⟩ := notice
  have hother : ∀ y, y ≠ x → (F y).or (c.heard (x, call) y) = F y := by
    intro y hy
    rw [heard, if_neg hy, Option.or_none]
  cases he : c.executions.find? x with
  | none =>
    have hsame : tell now c (x, call) = c := by
      simp only [tell, he]
    have hF : (fun y => (F y).or (c.heard (x, call) y)) = F := by
      funext y
      by_cases hy : y = x
      · subst hy
        rw [heard, if_pos rfl, he, Option.bind_none, Option.or_none]
      · exact hother y hy
    rw [hsame, hF]
    exact h
  | some e =>
    obtain ⟨hname, hsound⟩ := hg.sound he
    have htold := told hname hsound he now call
    have hheard : c.heard (x, call) x = e.successBy call := by
      rw [heard, if_pos rfl, he, Option.bind_some]
    have hkeys : (tell now c (x, call)).executions.keys = c.executions.keys := by
      rw [htold.executions, OrderedMap.keys_insert_of_mem _ (OrderedMap.mem_keys_iff.2 ⟨e, he⟩)]
    refine ⟨htold.settings.trans h.configured, ?_, ?_⟩
    · intro y f hf
      rw [htold.executions, OrderedMap.find?_insert] at hf
      split at hf
      · rename_i hy
        cases hf
        subst hy
        rw [hheard]
        exact respond_adapted call (h.timing x e he)
      · rename_i hy
        rw [hother y (Ne.symm hy)]
        exact h.timing y f hf
    · intro y hy
      rw [hkeys]
      by_cases hyx : y = x
      · subst hyx
        exact OrderedMap.mem_keys_iff.2 ⟨e, he⟩
      · rw [hother y hyx] at hy
        exact h.known y hy

/-- An execution asks for a new timeout with the first success, and never again. -/
theorem adjustmentsBy_told (h : Adapted settings F c) (now : Nat) (notice : Notice)
    (y : ExecutionName) :
    ((F y).map (allowance settings)).toList ++ adjustmentsBy now y c [notice] =
      (((F y).or (c.heard notice y)).map (allowance settings)).toList := by
  obtain ⟨x, call⟩ := notice
  simp only [adjustmentsBy, List.append_nil, heard]
  by_cases hy : x = y
  · subst hy
    simp only [if_true]
    cases he : c.executions.find? x with
    | none => simp
    | some e =>
      obtain ⟨hpolicy, hadapted, _⟩ := h.timing x e he
      have hretimed := Execution.respond_retimed e call
      simp only [Option.bind_some]
      generalize e.respond call = change at hretimed
      cases hretimed with
      | kept _ hnone hs =>
        rw [Execution.timeoutsOf_unadjusted hnone, List.append_nil, or_settled hadapted hs]
      | @adapted e' rest elapsed hbefore hs _ _ htimeout hnone =>
        have hone : Execution.timeoutsOf (.adjustTimeout e'.producingTimeout :: rest) =
            [e'.producingTimeout] :=
          congrArg (e'.producingTimeout :: ·) (Execution.timeoutsOf_unadjusted hnone)
        have hF : F x = none := by
          rw [hadapted] at hbefore
          simpa using hbefore
        rw [hone, hF, hs, htimeout, hpolicy]
        rfl
  · simp [hy, Ne.symm hy]

/-! ## Events -/

/-- Nothing is reported of a producing task. -/
def Quiet (notices : List Notice) : Prop :=
  ∀ notice ∈ notices, ∀ e : Execution, e.successBy notice.2 = none

theorem opening_quiet (c : Coordinator) (m : Moment)
    (hev : ∀ w n elapsed weight cached, event ≠ .taskFinished w n elapsed weight cached) :
    Quiet (c.opening m event).notices := by
  have hopens := opens c m event
  generalize c.opening m event = o at hopens
  intro notice hnotice e
  cases hopens with
  | finished => exact absurd rfl (hev _ _ _ _ _)
  | still | heard | joined | parted | refused => cases hnotice
  | resynced =>
    obtain ⟨t, _, rfl⟩ := List.mem_map.1 hnotice
    rfl
  | fetched | failed | undelivered | timedOut | begun =>
    cases List.mem_singleton.1 hnotice
    rfl

/-- Only the report that a task has finished can be a success, and it is told to one execution. -/
theorem opening_successes (c : Coordinator) (m : Moment) (event : Event) :
    (Quiet (c.opening m event).notices ∧ ∀ y, success? c y event = none) ∨
    ∃ notice, (c.opening m event).notices = [notice] ∧
      (c.opening m event).coordinator.executions = c.executions ∧
      ∀ y, success? c y event = c.heard notice y := by
  cases event with
  | taskFinished w n elapsed weight cached =>
    have hs := still_noteCaches c w cached
    simp only [opening, success?, hs.schedule]
    rcases hc : c.schedule.complete w n with ⟨s, _ | a⟩
    · exact .inl ⟨List.forall_mem_nil _, fun _ => rfl⟩
    · refine .inr ⟨_, rfl, hs.executions, ?_⟩
      intro y
      simp only [heard]
      by_cases hy : y = a.task.execution
      · subst hy
        cases c.executions.find? a.task.execution with
        | none => simp
        | some e => simp [Execution.successBy]
      · cases c.executions.find? y with
        | none => simp
        | some e => simp [hy, Ne.symm hy]
  | _ => exact .inl ⟨opening_quiet c m (by simp), fun _ => rfl⟩

theorem opening_adapted (hg : Grounded past c) (h : Adapted settings F c)
    (hn : (stamps ((m, event) :: past)).Nodup) :
    Adapted settings F (c.opening m event).coordinator := by
  have hopens := opens c m event
  generalize c.opening m event = o at hopens
  cases hopens with
  | still _ hs | finished hs | fetched hs => exact h.congr hs.settings hs.executions
  | heard | resynced | failed | undelivered | timedOut | joined | parted | refused =>
    exact h.congr rfl rfl
  | begun _ he =>
    have hnone : F (c.upcomingName m) = none := by
      cases hF : F (c.upcomingName m) with
      | none => rfl
      | some elapsed =>
        exact absurd (h.known _ (by rw [hF]; nofun)) (hg.toNamed.fresh hn rfl)
    refine ⟨h.configured, ?_, ?_⟩
    · intro x f hf
      simp only [OrderedMap.find?_insert] at hf
      split at hf
      · rename_i hx
        cases hf
        rw [← hx, hnone, he, h.configured]
        exact ⟨rfl, rfl, rfl⟩
      · exact h.timing x f hf
    · intro x hx
      exact OrderedMap.mem_keys_insert.2 (.inr (h.known x hx))

theorem quiet_adapted {notices : List Notice} (hquiet : Quiet notices) (hg : Grounded past c)
    (h : Adapted settings F c) (now : Nat) :
    Adapted settings F (tellAll now c notices) ∧ ∀ y, adjustmentsBy now y c notices = [] := by
  induction notices generalizing c with
  | nil => exact ⟨h, fun _ => rfl⟩
  | cons notice notices ih =>
    have hheard : ∀ y, (F y).or (c.heard notice y) = F y := by
      intro y
      have hnone : c.heard notice y = none := by
        simp only [heard]
        split
        · cases c.executions.find? y with
          | none => rfl
          | some e => exact hquiet notice List.mem_cons_self e
        · rfl
      rw [hnone, Option.or_none]
    have hfirst := tell_adapted hg h now notice
    rw [funext hheard] at hfirst
    obtain ⟨hrest, hnone⟩ := ih (fun n hmem => hquiet n (List.mem_cons_of_mem _ hmem))
      (tell_grounded now notice hg) hfirst
    refine ⟨hrest, ?_⟩
    intro y
    have hone := adjustmentsBy_told h now notice y
    rw [hheard, List.append_right_eq_self] at hone
    simp only [adjustmentsBy, List.append_nil] at hone
    rw [adjustmentsBy, hone, hnone]
    rfl

theorem react_adapted (hg : Grounded past c) (h : Adapted settings F c)
    (hn : (stamps ((m, event) :: past)).Nodup) :
    Adapted settings (fun y => (F y).or (success? c y event)) (c.react m event).coordinator ∧
    ∀ y, ((F y).map (allowance settings)).toList ++
        adjustmentsBy m.now y (c.opening m event).coordinator (c.opening m event).notices =
      (((F y).or (success? c y event)).map (allowance settings)).toList := by
  have hg' := opening_grounded hg m event
  have hopening := opening_adapted hg h hn
  rw [react_eq]
  rcases opening_successes c m event with ⟨hquiet, hnone⟩ | ⟨notice, hnotices, hx, hheard⟩
  · obtain ⟨hadapted, hadjusts⟩ := quiet_adapted hquiet hg' hopening m.now
    simp only [hnone, Option.or_none, hadjusts, List.append_nil]
    exact ⟨hadapted, fun _ => trivial⟩
  · have hsame : ∀ y, success? c y event = (c.opening m event).coordinator.heard notice y := by
      intro y
      rw [hheard, heard, heard, hx]
    rw [hnotices]
    simp only [hsame]
    exact ⟨tell_adapted hg' hopening m.now notice, adjustmentsBy_told hopening m.now notice⟩

theorem after_adapted (settings : Settings) {past : List (Moment × Event)}
    (hn : (stamps past).Nodup) :
    Adapted settings (fun x => firstSuccess settings x past) (after settings past) ∧
    ∀ x, adjustments settings x past =
      ((firstSuccess settings x past).map (allowance settings)).toList := by
  induction past with
  | nil =>
    refine ⟨⟨rfl, ?_, ?_⟩, fun _ => rfl⟩
    · intro x e he
      cases he
    · intro x hx
      exact absurd rfl hx
  | cons p past ih =>
    obtain ⟨m, event⟩ := p
    obtain ⟨hadapted, hadjusts⟩ := ih (stamps_tail hn)
    obtain ⟨hreact, hmore⟩ := react_adapted (after_grounded settings past) hadapted hn
    refine ⟨?_, ?_⟩
    · exact handle_of_react hreact fun _ h => h.congr rfl rfl
    · intro x
      rw [adjustments, hadjusts]
      exact hmore x

/-! ## The tasks -/

def Timely (c : Coordinator) : Prop :=
  ∀ t ∈ c.tasks, ∃ e, c.executions.find? t.execution = some e ∧ t.timeout = e.timeoutOf t.kind

theorem tell_timely (hg : Grounded past c) (h : Timely c) (now : Nat) (notice : Notice) :
    Timely (tell now c notice) := by
  obtain ⟨x, call⟩ := notice
  rcases hg.tell_cases now x call with hsame | ⟨e, he, hname, hsound, htold⟩
  · rwa [hsame]
  · have haccounts := Execution.respond_accounts hsound call
    intro t ht
    rw [htold.executions, OrderedMap.find?_insert]
    rcases (tell_revises hname hsound he now call).tasks t ht with ⟨u, hu, hrevised⟩ | hissued
    · obtain ⟨f, hf, htimeout⟩ := h u hu
      obtain ⟨htag, _, hwork, hkept⟩ := hrevised.same
      have hexecution : t.execution = u.execution := congrArg Prod.fst htag
      have hkind : t.kind = u.kind := congrArg TaskWork.kind hwork
      by_cases hx : x = t.execution
      · rw [if_pos hx]
        rw [← hexecution, ← hx, he] at hf
        cases hf
        refine ⟨_, rfl, ?_⟩
        exact hrevised.timeout (hexecution.symm.trans hx.symm) haccounts.terms.policy htimeout
      · rw [if_neg hx]
        refine ⟨f, hexecution ▸ hf, ?_⟩
        rw [hkept (.inl fun heq => hx (hexecution.trans heq).symm), hkind]
        exact htimeout
    · have hx := (haccounts.owner t hissued).1.trans hname
      rw [if_pos hx.symm]
      exact ⟨_, rfl, (Execution.respond_fresh e call t hissued).1⟩

theorem opening_timely (hg : Grounded past c) (h : Timely c)
    (hn : (stamps ((m, event) :: past)).Nodup) : Timely (c.opening m event).coordinator := by
  intro t ht
  obtain ⟨e, he, htimeout⟩ := h t (opening_tasks c m event t ht)
  exact ⟨e, opening_executions hg hn he, htimeout⟩

theorem dispatch_timely (now : Nat) (h : Timely c) : Timely (dispatch now c).coordinator := by
  intro t ht
  obtain ⟨u, hu, work, rfl, hkind⟩ := dispatch_tasks now c t ht
  obtain ⟨e, he, htimeout⟩ := h u hu
  exact ⟨e, he, htimeout.trans (congrArg e.timeoutOf hkind.symm)⟩

theorem after_timely (settings : Settings) {past : List (Moment × Event)}
    (hn : (stamps past).Nodup) : Timely (after settings past) := by
  induction past with
  | nil => exact nofun
  | cons p past ih =>
    obtain ⟨m, event⟩ := p
    have hg := after_grounded settings past
    refine (handle_keeps (P := fun c => Grounded ((m, event) :: past) c ∧ Timely c)
      ⟨opening_grounded hg m event, opening_timely hg (ih (stamps_tail hn)) hn⟩ ?_ ?_).2
    · rintro c notice ⟨hg, h⟩
      exact ⟨tell_grounded m.now notice hg, tell_timely hg h m.now notice⟩
    · rintro c ⟨hg, h⟩
      exact ⟨hg.congr rfl rfl fun _ hs => hs, dispatch_timely m.now h⟩

/-! ## Tasks through an event -/

/-- The tasks `ts` are known, and whatever has come of them is of the same kind. -/
structure Lasting (ts : List Task) (c : Coordinator) : Prop where
  known : Known (ts.map Task.tag) c
  kinds : ∀ t ∈ ts, ∀ t' ∈ c.tasks, t'.tag = t.tag → t'.kind = t.kind

theorem Lasting.congr {ts : List Task} (h : Lasting ts c) (hx : c'.executions = c.executions)
    (ht : ∀ t' ∈ c'.tasks, ∃ u ∈ c.tasks, t'.tag = u.tag ∧ t'.kind = u.kind) :
    Lasting ts c' := by
  refine ⟨?_, ?_⟩
  · intro x n hmem
    rw [hx]
    exact h.known x n hmem
  · intro t hmem t' ht' htag
    obtain ⟨u, hu, htagu, hkind⟩ := ht t' ht'
    exact hkind.trans (h.kinds t hmem u hu (htagu.symm.trans htag))

theorem opening_lasting {done : List Tag} (hg : Grounded past c) (hs : Settled done c)
    (hn : (stamps ((m, event) :: past)).Nodup) :
    Lasting c.tasks (c.opening m event).coordinator := by
  have htags : c.tasks.map Task.tag = c.scheduled := Schedule.tags_tasks c.schedule
  have hnodup : (c.tasks.map Task.tag).Nodup := by
    rw [htags]
    exact hs.nodup.sublist (List.sublist_append_left _ _)
  refine ⟨?_, ?_⟩
  · have hknown : Known (c.tasks.map Task.tag) c := by
      rw [htags]
      exact hs.known.mono fun g hg => List.mem_append_left _ hg
    intro x n hmem
    obtain ⟨e, he, hk⟩ := hknown x n hmem
    exact ⟨e, opening_executions hg hn he, hk⟩
  · intro t ht t' ht' htag
    have hmem := opening_tasks c m event t' ht'
    rw [List.inj_on_of_nodup_map hnodup hmem ht htag]

theorem tell_lasting {ts : List Task} (hg : Grounded past c) (h : Lasting ts c) (now : Nat)
    (notice : Notice) : Lasting ts (tell now c notice) := by
  obtain ⟨x, call⟩ := notice
  rcases hg.tell_cases now x call with hsame | ⟨e, he, hname, hsound, htold⟩
  · rwa [hsame]
  · have haccounts := Execution.respond_accounts hsound call
    refine ⟨known_follow h.known he haccounts fun y => ?_, ?_⟩
    · rw [htold.executions, OrderedMap.find?_insert]
    · intro t ht t' ht' htag
      rcases (tell_revises hname hsound he now call).tasks t' ht' with ⟨u, hu, hrevised⟩ | hissued
      · obtain ⟨htagu, _, hwork, _⟩ := hrevised.same
        exact (congrArg TaskWork.kind hwork).trans (h.kinds t ht u hu (htagu.symm.trans htag))
      · -- what is issued has a number that no task has had
        obtain ⟨k', hle, _, hk'⟩ := haccounts.new_names (List.mem_map_of_mem hissued)
        have hx : t.execution = x :=
          (congrArg Prod.fst htag).symm.trans ((haccounts.owner t' hissued).1.trans hname)
        have hmem : (x, t.name) ∈ ts.map Task.tag := by
          rw [← hx]
          exact List.mem_map_of_mem ht
        obtain ⟨f, hf, k, hlt, hk⟩ := h.known x t.name hmem
        cases he.symm.trans hf
        have hsame : t.name = t'.name := (congrArg Prod.snd htag).symm
        rw [hname, ← hsame] at hk'
        have := (TaskName.ofExecution_inj.1 (hk.symm.trans hk')).2
        omega

theorem handle_lasting {done : List Tag} (hg : Grounded past c) (hs : Settled done c)
    (hn : (stamps ((m, event) :: past)).Nodup) :
    Lasting c.tasks (c.handle m event).coordinator := by
  refine (handle_keeps (P := fun d => Grounded ((m, event) :: past) d ∧ Lasting c.tasks d)
    ⟨opening_grounded hg m event, opening_lasting hg hs hn⟩ ?_ ?_).2
  · rintro d notice ⟨hg, h⟩
    exact ⟨tell_grounded m.now notice hg, tell_lasting hg h m.now notice⟩
  · rintro d ⟨hg, h⟩
    refine ⟨hg.congr rfl rfl fun _ hs => hs, h.congr rfl ?_⟩
    intro t' ht'
    obtain ⟨u, hu, work, rfl, hkind⟩ := dispatch_tasks m.now d t' ht'
    exact ⟨u, hu, rfl, hkind⟩

/-! ## Agreement -/

structure TimeoutsAgree (settings : Settings) (past : List (Moment × Event)) : Prop where
  producing : ∀ t ∈ (after settings past).tasks, t.kind = .producing →
    t.timeout = producingTimeout settings (firstSuccess settings t.execution past)
  reducing : ∀ t ∈ (after settings past).tasks, t.kind = .reducing →
    t.timeout = settings.taskTimeout
  /-- An execution asks for a new timeout when there is a first success, and only then. -/
  adjusted : ∀ x, adjustments settings x past =
    ((firstSuccess settings x past).map (allowance settings)).toList
  /-- A task has a new timeout only if the event is the first success of its execution. -/
  kept : ∀ m event, (stamps ((m, event) :: past)).Nodup → ∀ t ∈ (after settings past).tasks,
    ∀ t' ∈ (after settings ((m, event) :: past)).tasks, t'.tag = t.tag → t'.timeout ≠ t.timeout →
      t.kind = .producing ∧ firstSuccess settings t.execution past = none ∧
      success? (after settings past) t.execution event ≠ none

theorem timeout_eq (settings : Settings) {past : List (Moment × Event)} (hn : (stamps past).Nodup)
    {t : Task} (ht : t ∈ (after settings past).tasks) :
    t.timeout = match t.kind with
      | .producing => producingTimeout settings (firstSuccess settings t.execution past)
      | .reducing => settings.taskTimeout := by
  obtain ⟨e, he, htimeout⟩ := after_timely settings hn t ht
  obtain ⟨hpolicy, _, hproducing⟩ := (after_adapted settings hn).1.timing t.execution e he
  rw [htimeout]
  cases t.kind with
  | producing => exact hproducing
  | reducing => exact congrArg ExecutionPolicy.taskTimeout hpolicy

theorem timeouts_agree (settings : Settings) (past : List (Moment × Event))
    (hn : (stamps past).Nodup) : TimeoutsAgree settings past where
  producing := by
    intro t ht hkind
    rw [timeout_eq settings hn ht, hkind]
  reducing := by
    intro t ht hkind
    rw [timeout_eq settings hn ht, hkind]
  adjusted := (after_adapted settings hn).2
  kept := by
    intro m event hn' t ht t' ht' htag hne
    have hlasting : Lasting (after settings past).tasks (after settings ((m, event) :: past)) :=
      handle_lasting (after_grounded settings past) (after_settled settings hn).1 hn'
    have hkind := hlasting.kinds t ht t' ht' htag
    have hexecution : t'.execution = t.execution := congrArg Prod.fst htag
    rw [timeout_eq settings hn' ht', timeout_eq settings hn ht, hkind, hexecution] at hne
    cases hk : t.kind with
    | reducing =>
      rw [hk] at hne
      exact absurd rfl hne
    | producing =>
      rw [hk] at hne
      simp only [firstSuccess] at hne
      refine ⟨rfl, ?_, ?_⟩
      · cases hfirst : firstSuccess settings t.execution past with
        | none => rfl
        | some elapsed =>
          rw [hfirst] at hne
          exact absurd rfl hne
      · intro hnone
        rw [hnone, Option.or_none] at hne
        exact hne rfl

/-- The first task has taken 20 milliseconds, which allows the others the least timeout there is. -/
theorem timeouts_agree_sample :
    TimeoutsAgree sampleSettings sampleRun ∧
    (after sampleSettings sampleRun).tasks.map (fun t => (t.kind, t.timeout))
      = [(.producing, 1000), (.producing, 1000), (.reducing, 300000)] ∧
    adjustments sampleSettings ⟨"execution7-2"⟩ sampleRun = [1000] :=
  ⟨timeouts_agree sampleSettings sampleRun (stamps_nodup (by decide)), by decide +kernel,
    by decide +kernel⟩

end Coordinator
end RenderFarm
