import RenderFarm.Proofs.Coordinator.Revisions
import RenderFarm.Proofs.Execution.Seeds

/-!
# RenderFarm.Proofs.Coordinator.Issued

The tasks that all executions of a run have issued.

* `issued settings past`: these tasks, the earliest first; `issuedBy x` are those of one execution.
* `Numbered ts c`: of the tasks `ts` those of one execution are numbered in order from 1 on, and so
  are the seeds of its producing tasks. Whatever is scheduled is one of them.
* `Numbered.names_nodup`: so no two of them have the same name.
* `after_numbered`: this holds of every run in which no name is given twice.
-/

namespace RenderFarm
namespace Coordinator

open Execution (tasksOf seedsOf Accounts Sows Call)

/-- The tasks that the execution issues when it is told. -/
def answered (c : Coordinator) (notice : Notice) : List Task :=
  match c.executions.find? notice.1 with
  | some e => tasksOf (e.respond notice.2).2
  | none => []

/-- The tasks that are issued when the notices are told one after another. -/
def issuedFor (now : Nat) : Coordinator → List Notice → List Task
  | _, [] => []
  | c, notice :: notices => c.answered notice ++ issuedFor now (tell now c notice) notices

def issued (settings : Settings) : List (Moment × Event) → List Task
  | [] => []
  | (m, event) :: past =>
    let opening := (after settings past).opening m event
    issued settings past ++ issuedFor m.now opening.coordinator opening.notices

/-- The tasks of the execution. -/
def issuedBy (x : ExecutionName) (ts : List Task) : List Task := ts.filter fun t => t.execution = x

/-- The execution has come to be what it is by issuing the tasks, from the first number on. -/
def Tracks (x : ExecutionName) (ts : List Task) (e : Execution) : Prop :=
  ∃ first ended, first.name = x ∧ first.nextTask = 1 ∧ first.nextSeed = 1 ∧
    Accounts first ended ts e ∧ Sows first ts e

structure Numbered (ts : List Task) (c : Coordinator) : Prop where
  tracks : ∀ x e, c.executions.find? x = some e → Tracks x (issuedBy x ts) e
  known : ∀ t ∈ ts, t.execution ∈ c.executions.keys
  scheduled : ∀ t ∈ c.tasks, t.tag ∈ ts.map Task.tag

variable {ts us : List Task} {c c' : Coordinator} {past : List (Moment × Event)} {m : Moment}
  {event : Event} {x : ExecutionName} {e : Execution}

/-! ## One execution -/

theorem Tracks.refl (hx : e.name = x) (ht : e.nextTask = 1) (hs : e.nextSeed = 1) :
    Tracks x [] e :=
  ⟨e, [], hx, ht, hs, .refl e, .refl e⟩

theorem Tracks.respond (h : Tracks x ts e) (hs : Execution.Sound e) (call : Call) :
    Tracks x (ts ++ tasksOf (e.respond call).2) (e.respond call).1 := by
  obtain ⟨first, ended, hx, ht, hseed, haccounts, hsows⟩ := h
  exact ⟨first, ended ++ e.overBy call, hx, ht, hseed,
    haccounts.trans (Execution.respond_accounts hs call),
    hsows.trans (Execution.respond_sows e call)⟩

theorem Tracks.names (h : Tracks x ts e) :
    ts.map Task.name = (List.range' 1 ts.length).map (.ofExecution x) := by
  obtain ⟨first, _, rfl, ht, _, haccounts, _⟩ := h
  have hnames := haccounts.names
  rwa [ht] at hnames

theorem Tracks.seeds (h : Tracks x ts e) :
    seedsOf ts = List.range' 1 (seedsOf ts).length := by
  obtain ⟨first, _, _, _, hseed, _, hsows⟩ := h
  have hseeds := hsows.seeds
  rwa [hseed] at hseeds

theorem Tracks.names_nodup (h : Tracks x ts e) : (ts.map Task.name).Nodup := by
  obtain ⟨_, _, _, _, _, haccounts, _⟩ := h
  exact haccounts.names_nodup

/-! ## All executions -/

theorem issuedBy_append (x : ExecutionName) (ts us : List Task) :
    issuedBy x (ts ++ us) = issuedBy x ts ++ issuedBy x us :=
  List.filter_append ..

theorem issuedBy_self (h : ∀ t ∈ ts, t.execution = x) : issuedBy x ts = ts :=
  List.filter_eq_self.2 fun t ht => decide_eq_true (h t ht)

theorem issuedBy_nil (h : ∀ t ∈ ts, t.execution ≠ x) : issuedBy x ts = [] :=
  List.filter_eq_nil_iff.2 fun t ht => by simpa using h t ht

theorem Numbered.congr (h : Numbered ts c) (hx : c'.executions = c.executions)
    (ht : ∀ t ∈ c'.tasks, t.tag ∈ c.tasks.map Task.tag) : Numbered ts c' := by
  refine ⟨hx ▸ h.tracks, hx ▸ h.known, ?_⟩
  intro t hmem
  obtain ⟨u, hu, htag⟩ := List.mem_map.1 (ht t hmem)
  exact htag ▸ h.scheduled u hu

/-- A task is named after its execution. -/
theorem Numbered.named (h : Numbered ts c) {t : Task} (ht : t ∈ ts) :
    ∃ k, t.name = .ofExecution t.execution k := by
  obtain ⟨e, he⟩ := OrderedMap.mem_keys_iff.1 (h.known t ht)
  have hmem : t.name ∈ (issuedBy t.execution ts).map Task.name :=
    List.mem_map_of_mem (List.mem_filter.2 ⟨ht, decide_eq_true rfl⟩)
  rw [(h.tracks t.execution e he).names] at hmem
  obtain ⟨k, _, hk⟩ := List.mem_map.1 hmem
  exact ⟨k, hk.symm⟩

/-- An execution that there is not has issued nothing. -/
theorem Numbered.issuedBy_cases (h : Numbered ts c) (x : ExecutionName) :
    issuedBy x ts = [] ∨ ∃ e, Tracks x (issuedBy x ts) e := by
  cases he : c.executions.find? x with
  | some e => exact .inr ⟨e, h.tracks x e he⟩
  | none =>
    refine .inl (issuedBy_nil ?_)
    rintro t ht rfl
    obtain ⟨e, hsome⟩ := OrderedMap.mem_keys_iff.1 (h.known t ht)
    cases he.symm.trans hsome

theorem Numbered.numbers (h : Numbered ts c) (x : ExecutionName) :
    (issuedBy x ts).map Task.name =
      (List.range' 1 (issuedBy x ts).length).map (.ofExecution x) := by
  rcases h.issuedBy_cases x with hnone | ⟨e, htracks⟩
  · rw [hnone]
    rfl
  · exact htracks.names

theorem Numbered.seeds (h : Numbered ts c) (x : ExecutionName) :
    seedsOf (issuedBy x ts) = List.range' 1 (seedsOf (issuedBy x ts)).length := by
  rcases h.issuedBy_cases x with hnone | ⟨e, htracks⟩
  · rw [hnone]
    rfl
  · exact htracks.seeds

/-- Tasks of one execution are told apart by their numbers, and those of two by their executions. -/
theorem Numbered.names_nodup (h : Numbered ts c) : (ts.map Task.name).Nodup := by
  refine List.nodup_iff_count_le_one.2 fun n => ?_
  by_cases hn : n ∈ ts.map Task.name
  · obtain ⟨t, ht, rfl⟩ := List.mem_map.1 hn
    obtain ⟨e, he⟩ := OrderedMap.mem_keys_iff.1 (h.known t ht)
    obtain ⟨k, hk⟩ := h.named ht
    have hone := List.nodup_iff_count_le_one.1 (h.tracks t.execution e he).names_nodup t.name
    have hsame : (ts.map Task.name).count t.name =
        ((issuedBy t.execution ts).map Task.name).count t.name := by
      simp only [List.count, List.countP_map, issuedBy, List.countP_filter]
      refine List.countP_congr fun u hu => ?_
      simp only [Function.comp, beq_iff_eq, Bool.and_eq_true, decide_eq_true_eq, iff_self_and]
      intro hname
      obtain ⟨k', hk'⟩ := h.named hu
      exact (TaskName.ofExecution_inj.1 (hk'.symm.trans (hname.trans hk))).1
    rw [hsame]
    exact hone
  · rw [List.count_eq_zero_of_not_mem hn]
    exact Nat.zero_le _

/-! ## Runs -/

theorem tell_numbered (hg : Grounded past c) (h : Numbered ts c) (now : Nat) (notice : Notice) :
    Numbered (ts ++ c.answered notice) (tell now c notice) := by
  obtain ⟨x, call⟩ := notice
  cases he : c.executions.find? x with
  | none =>
    simpa only [answered, tell, he, List.append_nil] using h
  | some e =>
    obtain ⟨hname, hsound⟩ := hg.sound he
    have htold := told hname hsound he now call
    have howner := (Execution.respond_accounts hsound call).owner
    have hown : ∀ t ∈ tasksOf (e.respond call).2, t.execution = x := fun t ht =>
      (howner t ht).1.trans hname
    have hkeys : ∀ y, y ∈ (tell now c (x, call)).executions.keys ↔ y ∈ c.executions.keys := by
      intro y
      rw [htold.executions, OrderedMap.keys_insert_of_mem _ (OrderedMap.mem_keys_iff.2 ⟨e, he⟩)]
    simp only [answered, he]
    constructor
    case tracks =>
      intro y f hf
      rw [htold.executions, OrderedMap.find?_insert] at hf
      rw [issuedBy_append]
      split at hf
      · rename_i hy
        cases hf
        subst hy
        rw [issuedBy_self hown]
        exact (h.tracks x e he).respond hsound call
      · rename_i hy
        rw [issuedBy_nil fun t ht heq => hy ((hown t ht).symm.trans heq), List.append_nil]
        exact h.tracks y f hf
    case known =>
      intro t ht
      rw [hkeys]
      rcases List.mem_append.1 ht with ht | ht
      · exact h.known t ht
      · rw [hown t ht]
        exact OrderedMap.mem_keys_iff.2 ⟨e, he⟩
    case scheduled =>
      intro t ht
      rw [List.map_append, List.mem_append]
      rcases (tell_revises hname hsound he now call).tasks t ht with ⟨u, hu, hrevised⟩ | hnew
      · exact .inl (hrevised.same.1 ▸ h.scheduled u hu)
      · exact .inr (List.mem_map_of_mem hnew)

theorem tellAll_numbered (hg : Grounded past c) (h : Numbered ts c) (now : Nat)
    (notices : List Notice) :
    Numbered (ts ++ issuedFor now c notices) (tellAll now c notices) := by
  induction notices generalizing c ts with
  | nil =>
    rw [issuedFor, List.append_nil]
    exact h
  | cons notice notices ih =>
    rw [issuedFor, ← List.append_assoc]
    exact ih (tell_grounded now notice hg) (tell_numbered hg h now notice)

theorem opening_numbered (hg : Grounded past c) (h : Numbered ts c)
    (hn : (stamps ((m, event) :: past)).Nodup) :
    Numbered ts (c.opening m event).coordinator := by
  have htasks : ∀ t ∈ (c.opening m event).coordinator.tasks, t.tag ∈ c.tasks.map Task.tag :=
    fun t ht => List.mem_map_of_mem (opening_tasks c m event t ht)
  have hopens := opens c m event
  generalize c.opening m event = o at hopens htasks
  cases hopens with
  | still _ hs | finished hs | fetched hs => exact h.congr hs.executions htasks
  | heard | resynced | failed | undelivered | timedOut | joined | parted | refused =>
    exact h.congr rfl htasks
  | begun _ he =>
    have hnew := hg.toNamed.fresh hn rfl
    constructor
    case tracks =>
      intro y f hf
      rw [OrderedMap.find?_insert] at hf
      split at hf
      · rename_i hy
        cases hf
        subst hy
        -- nothing has been issued by an execution before there was one
        have hnone : ∀ t ∈ ts, t.execution ≠ c.upcomingName m := by
          intro t ht heq
          exact hnew (heq ▸ h.known t ht)
        rw [issuedBy_nil hnone, he]
        exact .refl rfl rfl rfl
      · exact h.tracks y f hf
    case known =>
      intro t ht
      exact OrderedMap.mem_keys_insert.2 (.inr (h.known t ht))
    case scheduled => exact h.scheduled

theorem after_numbered (settings : Settings) {past : List (Moment × Event)}
    (hn : (stamps past).Nodup) : Numbered (issued settings past) (after settings past) := by
  induction past with
  | nil =>
    refine ⟨?_, nofun, nofun⟩
    intro x e he
    cases he
  | cons p past ih =>
    obtain ⟨m, event⟩ := p
    have hg := after_grounded settings past
    have hopening := opening_numbered hg (ih (stamps_tail hn)) hn
    have hreact := tellAll_numbered (opening_grounded hg m event) hopening m.now
      ((after settings past).opening m event).notices
    rw [← react_eq] at hreact
    refine handle_of_react hreact fun d h => h.congr rfl ?_
    intro t ht
    obtain ⟨u, hu, work, rfl, _⟩ := dispatch_tasks m.now d t ht
    exact List.mem_map.2 ⟨u, hu, rfl⟩

end Coordinator
end RenderFarm
