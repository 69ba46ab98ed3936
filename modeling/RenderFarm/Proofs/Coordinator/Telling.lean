import Mathlib.Data.List.Perm.Subperm
import RenderFarm.Proofs.Coordinator.Tasks
import RenderFarm.Proofs.Schedule.Flights

/-!
# RenderFarm.Proofs.Coordinator.Telling

What an execution brings about when it is told something.

* `tell`: the execution takes the call, and its actions are carried out; `telling` is the same with
  the commands that come of it.
* `Carried`: all that actions can do outside of the sessions.
* `told`: all that a call can do. The fleet, the workers and the assignments stay as they are; the
  session is free once the execution is over.
-/

namespace RenderFarm
namespace Coordinator

open Execution (tasksOf Action Call Sound)

abbrev Notice := ExecutionName × Call

def tell (now : Nat) (c : Coordinator) (notice : Notice) : Coordinator :=
  match c.executions.find? notice.1 with
  | some e => (c.follow now (e.respond notice.2)).coordinator
  | none => c

def tellAll (now : Nat) (c : Coordinator) (notices : List Notice) : Coordinator :=
  notices.foldl (tell now) c

/-- The turn in which the execution is told. -/
def telling (now : Nat) (c : Coordinator) (notice : Notice) : Turn :=
  match c.executions.find? notice.1 with
  | some e => c.follow now (e.respond notice.2)
  | none => { coordinator := c }

theorem telling_coordinator (now : Nat) (c : Coordinator) (notice : Notice) :
    (telling now c notice).coordinator = tell now c notice := by
  unfold telling tell
  split <;> rfl

theorem turns_telling (now : Nat) (c : Coordinator) (notices : List Notice) :
    (turns (telling now) notices c).coordinator = tellAll now c notices := by
  induction notices generalizing c with
  | nil => rfl
  | cons notice notices ih =>
    simp only [turns, Turn.andThen, telling_coordinator]
    exact ih (tell now c notice)

/-- What every one of the notices keeps is kept by all of them. -/
theorem tellAll_keeps_of_mem {P : Coordinator → Prop} {now : Nat} {notices : List Notice}
    (hstep : ∀ c, ∀ notice ∈ notices, P c → P (tell now c notice)) {c : Coordinator} (h : P c) :
    P (tellAll now c notices) := by
  induction notices generalizing c with
  | nil => exact h
  | cons notice notices ih =>
    exact ih (fun c p hp => hstep c p (List.mem_cons_of_mem _ hp))
      (hstep c notice List.mem_cons_self h)

theorem tellAll_keeps {P : Coordinator → Prop} {now : Nat}
    (hstep : ∀ c notice, P c → P (tell now c notice)) {c : Coordinator} (h : P c)
    (notices : List Notice) : P (tellAll now c notices) :=
  tellAll_keeps_of_mem (fun c notice _ => hstep c notice) h

/-! ## Carrying out actions -/

structure Carried (ts : List Task) (c c' : Coordinator) : Prop where
  settings : c'.settings = c.settings
  fleet : c'.fleet = c.fleet
  names : c'.names = c.names
  executions : c'.executions = c.executions
  steady : c.schedule.Steady c'.schedule
  queue : c'.schedule.queue.Subperm (c.schedule.queue ++ ts.map Task.gist)

theorem Carried.trans {ts ts' : List Task} {c₁ c₂ c₃ : Coordinator} (h : Carried ts c₁ c₂)
    (h' : Carried ts' c₂ c₃) : Carried (ts ++ ts') c₁ c₃ where
  settings := h'.settings.trans h.settings
  fleet := h'.fleet.trans h.fleet
  names := h'.names.trans h.names
  executions := h'.executions.trans h.executions
  steady := h.steady.trans h'.steady
  queue := by
    rw [List.map_append, ← List.append_assoc]
    exact h'.queue.trans ((List.subperm_append_right _).2 h.queue)

theorem carried_act (x : ExecutionName) (now : Nat) (c : Coordinator) (a : Action) :
    Carried (tasksOf [a]) c (act x now c a).coordinator := by
  cases a with
  | enqueue t =>
    exact ⟨rfl, rfl, rfl, rfl, Schedule.steady_enqueue _ _,
      (Schedule.queue_enqueue c.schedule t).subperm⟩
  | adjustTimeout timeout =>
    refine ⟨rfl, rfl, rfl, rfl, Schedule.steady_retime _ _ _ now, ?_⟩
    have hq := Schedule.queue_retime c.schedule x timeout now
    exact (List.Perm.of_eq (hq.trans (List.append_nil _).symm)).subperm
  | finish | fail =>
    refine ⟨rfl, rfl, rfl, rfl, Schedule.steady_dropExecution _ _, ?_⟩
    have hq := Schedule.queue_dropExecution c.schedule x
    exact (hq.trans (List.sublist_append_left _ _)).subperm

theorem carried_turns (x : ExecutionName) (now : Nat) (c : Coordinator) (actions : List Action) :
    Carried (tasksOf actions) c (turns (act x now) actions c).coordinator := by
  induction actions generalizing c with
  | nil =>
    refine ⟨rfl, rfl, rfl, rfl, .refl _, ?_⟩
    exact (List.Perm.of_eq (List.append_nil c.schedule.queue).symm).subperm
  | cons a actions ih =>
    have hsplit : tasksOf (a :: actions) = tasksOf [a] ++ tasksOf actions :=
      Execution.tasksOf_append [a] actions
    rw [hsplit]
    exact (carried_act x now c a).trans (ih (act x now c a).coordinator)

theorem sessions_turns (x : ExecutionName) (now : Nat) (c : Coordinator) {actions : List Action}
    (ha : ∀ a ∈ actions, a.ends = false) :
    (turns (act x now) actions c).coordinator.sessions = c.sessions := by
  induction actions generalizing c with
  | nil => rfl
  | cons a actions ih =>
    have hact : (act x now c a).coordinator.sessions = c.sessions := by
      cases a with
      | enqueue | adjustTimeout => rfl
      | finish | fail => cases ha _ List.mem_cons_self
    exact (ih (act x now c a).coordinator fun b hb => ha b (List.mem_cons_of_mem _ hb)).trans hact

theorem act_last {x : ExecutionName} {now : Nat} {last : Action} (hlast : last.ends = true)
    (c : Coordinator) : (act x now c last).coordinator = c.endExecution x := by
  cases last with
  | enqueue | adjustTimeout => cases hlast
  | finish | fail => rfl

/-! ## Taking a call -/

/-- The execution `x` becomes `e'` with a call that has the tasks `ts` issued. -/
structure Told (x : ExecutionName) (e e' : Execution) (ts : List Task) (c c' : Coordinator) :
    Prop where
  settings : c'.settings = c.settings
  fleet : c'.fleet = c.fleet
  names : c'.names = c.names
  executions : c'.executions = c.executions.insert x e'
  sessions : c'.sessions =
    if e.isTerminal = false ∧ e'.isTerminal = true then c.sessions.endExecution e.session x
    else c.sessions
  steady : c.schedule.Steady c'.schedule
  queue : c'.schedule.queue.Subperm (c.schedule.queue ++ ts.map Task.gist)

variable {c : Coordinator} {x : ExecutionName} {e : Execution} {call : Call}

theorem sessions_follow (c : Coordinator) (hname : e.name = x) (hs : Sound e) (now : Nat)
    (call : Call) : (c.follow now (e.respond call)).coordinator.sessions =
      if e.isTerminal = false ∧ (e.respond call).1.isTerminal = true
      then c.sessions.endExecution e.session x else c.sessions := by
  have hterms := (Execution.respond_accounts hs call).terms
  let c₁ := { c with executions := c.executions.insert x (e.respond call).1 }
  simp only [follow, hterms.name.trans hname]
  cases ht : e.isTerminal with
  | true => simp [Execution.respond_terminal ht call, turns]
  | false =>
    rcases Execution.announces_respond ht call with ⟨ht', hall⟩ | ⟨ht', front, last, hend⟩
    · rw [sessions_turns x now c₁ hall]
      simp [ht', c₁]
    · -- the end is announced last, so the execution is found as the call has left it
      have hfront := carried_turns x now c₁ front
      have hfree := sessions_turns x now c₁ hend.2.2
      have hfind : (turns (act x now) front c₁).coordinator.executions.find? x
          = some (e.respond call).1 := by
        rw [hfront.executions, OrderedMap.find?_insert, if_pos rfl]
      rw [hend.1, turns_append]
      simp only [turns, Turn.andThen, act_last hend.2.1, endExecution]
      rw [if_pos ⟨trivial, ht'⟩, hfind, hfree]
      simp only [hterms.session, c₁]

theorem told (hname : e.name = x) (hs : Sound e) (he : c.executions.find? x = some e) (now : Nat)
    (call : Call) : Told x e (e.respond call).1 (tasksOf (e.respond call).2) c
      (tell now c (x, call)) := by
  have hname' := (Execution.respond_accounts hs call).terms.name.trans hname
  have h := carried_turns x now { c with executions := c.executions.insert x (e.respond call).1 }
    (e.respond call).2
  have hsessions := sessions_follow c hname hs now call
  simp only [tell, he]
  simp only [follow, hname'] at hsessions ⊢
  exact ⟨h.settings, h.fleet, h.names, h.executions, hsessions, h.steady, h.queue⟩

/-! ## What no notice changes -/

theorem tell_frame (now : Nat) (c : Coordinator) (notice : Notice) :
    (tell now c notice).fleet = c.fleet ∧ (tell now c notice).names = c.names ∧
    (tell now c notice).settings = c.settings ∧
    c.schedule.Steady (tell now c notice).schedule := by
  unfold tell
  split
  · rename_i e he
    have h := carried_turns (e.respond notice.2).1.name now
      { c with executions := c.executions.insert (e.respond notice.2).1.name (e.respond notice.2).1 }
      (e.respond notice.2).2
    exact ⟨h.fleet, h.names, h.settings, h.steady⟩
  · exact ⟨rfl, rfl, rfl, .refl _⟩

theorem tellAll_frame (now : Nat) (c : Coordinator) (notices : List Notice) :
    (tellAll now c notices).fleet = c.fleet ∧ (tellAll now c notices).names = c.names ∧
    (tellAll now c notices).settings = c.settings ∧
    c.schedule.Steady (tellAll now c notices).schedule := by
  refine tellAll_keeps (P := fun d => d.fleet = c.fleet ∧ d.names = c.names ∧
    d.settings = c.settings ∧ c.schedule.Steady d.schedule) ?_ ⟨rfl, rfl, rfl, .refl _⟩ notices
  rintro d notice ⟨hf, hn, hst, hs⟩
  obtain ⟨hf', hn', hst', hs'⟩ := tell_frame now d notice
  exact ⟨hf'.trans hf, hn'.trans hn, hst'.trans hst, hs.trans hs'⟩

end Coordinator
end RenderFarm
