import RenderFarm.Proofs.Coordinator.Runs

/-!
# RenderFarm.Proofs.Coordinator.Commands

The commands of a run, and what comes back of them.

* `commands settings past`: all that was commanded in a run.
* `genuine settings past`: the events that the coordinator posts to itself come from commands.
* `Ticketed cmds c`: a command with the ticket of an assignment was given for that assignment.
-/

namespace RenderFarm

/-- The attempt that a command is about. -/
def Command.ticket? : Command → Option Ticket
  | .run _ _ ticket => some ticket
  | .post (.dispatchFailed _ _ ticket _) => some ticket
  | _ => none

/-- Whether the command can bring about the event. Only what the coordinator posts to itself counts,
and the wording of a failure does not. -/
def Command.brings : Command → Event → Bool
  | .run w message ticket, .dispatchFailed v n t _ =>
    v = w.name && n = message.name && t = ticket
  | .post (.dispatchFailed w n ticket _), .dispatchFailed v n' t _ =>
    v = w && n' = n && t = ticket
  | .postAfter _ (.probeTimeout n ticket), .probeTimeout n' t => n' = n && t = ticket
  | _, _ => false

/-- Only the coordinator itself posts the event. -/
def Event.isOwn : Event → Bool
  | .dispatchFailed .. | .probeTimeout .. => true
  | _ => false

namespace Coordinator

/-- The commands that the last event of a run led to. -/
def given (settings : Settings) : List (Moment × Event) → List Command
  | [] => (start settings).commands
  | (m, event) :: past => ((after settings past).handle m event).commands

def commands (settings : Settings) : List (Moment × Event) → List Command
  | [] => given settings []
  | p :: past => given settings (p :: past) ++ commands settings past

/-- Whatever the coordinator is said to have posted to itself, a command has brought about before. A
command may do so more than once, after any time. -/
def genuine (settings : Settings) : List (Moment × Event) → Bool
  | [] => true
  | (_, event) :: past =>
    (!event.isOwn || (commands settings past).any (·.brings event)) && genuine settings past

/-! ## Commands without tickets -/

theorem turns_commands {α : Type} {f : Coordinator → α → Turn} {P : Command → Prop}
    (hf : ∀ c a, ∀ cmd ∈ (f c a).commands, P cmd) (as : List α) (c : Coordinator) :
    ∀ cmd ∈ (turns f as c).commands, P cmd := by
  induction as generalizing c with
  | nil =>
    intro cmd hc
    cases hc
  | cons a as ih =>
    intro cmd hc
    rcases List.mem_append.1 hc with hc | hc
    · exact hf c a cmd hc
    · exact ih (f c a).coordinator cmd hc

/-- What executions are told brings about nothing but probes. -/
theorem telling_probes (now : Nat) (c : Coordinator) (notice : Notice) :
    ∀ cmd ∈ (telling now c notice).commands, ∃ p, cmd = probeCommand p := by
  intro cmd hc
  unfold telling at hc
  split at hc
  · refine turns_commands (P := fun cmd => ∃ p, cmd = probeCommand p) (fun d a cmd hc => ?_) _ _
      cmd hc
    cases a with
    | enqueue | finish | fail => cases hc
    | adjustTimeout timeout =>
      obtain ⟨p, _, rfl⟩ := List.mem_map.1 hc
      exact ⟨p, rfl⟩
  · cases hc

theorem told_probes (now : Nat) (notices : List Notice) (c : Coordinator) :
    ∀ cmd ∈ (turns (telling now) notices c).commands, ∃ p, cmd = probeCommand p :=
  turns_commands (telling_probes now) notices c

theorem roundCommands_ticket (c : Coordinator) (round : Fleet.Round) :
    ∀ cmd ∈ c.roundCommands round, cmd.ticket? = none := by
  intro cmd hc
  rcases List.mem_append.1 hc with hc | hc
  · obtain ⟨w, _, rfl⟩ := List.mem_map.1 hc
    rfl
  · split at hc
    · obtain ⟨w, _, rfl⟩ := List.mem_map.1 hc
      rfl
    · cases hc

/-- A reaction alone sends no task. -/
theorem react_commands (c : Coordinator) (m : Moment) (event : Event) :
    ∀ cmd ∈ (c.react m event).commands, cmd.ticket? = none := by
  intro cmd hc
  rw [(react_turn c m event).2] at hc
  rcases List.mem_append.1 hc with hc | hc
  · cases event with
    | reconcileWorkers =>
      simp only [ownCommands, reconcileWorkers, List.mem_cons, List.not_mem_nil, or_false] at hc
      rcases hc with rfl | rfl <;> rfl
    | instancesListed listing =>
      cases listing with
      | error f => cases hc
      | ok workers => exact roundCommands_ticket _ _ cmd hc
    | probeTimeout n ticket =>
      simp only [ownCommands] at hc
      split at hc
      · cases List.mem_singleton.1 hc
        rfl
      · cases hc
      · cases hc
    | deleteSession name owner =>
      simp only [ownCommands, deleteSession] at hc
      split at hc
      · cases hc
      · obtain ⟨w, _, rfl⟩ := List.mem_map.1 hc
        rfl
    | _ => cases hc
  · obtain ⟨p, rfl⟩ := told_probes m.now _ _ cmd hc
    rfl

/-- Every command with a ticket is given for an assignment of the pass after the reaction. -/
theorem handle_commands {c : Coordinator} {m : Moment} {event : Event} {cmd : Command}
    {ticket : Ticket} (hc : cmd ∈ (c.handle m event).commands) (ht : cmd.ticket? = some ticket) :
    (c.react m event).wakes = true ∧
    cmd ∈ (dispatch m.now (c.react m event).coordinator).commands := by
  have hreact : cmd ∉ (c.react m event).commands := by
    intro hmem
    rw [react_commands c m event cmd hmem] at ht
    cases ht
  simp only [handle] at hc
  split at hc
  · rename_i hwakes
    exact ⟨hwakes, (List.mem_append.1 hc).resolve_left hreact⟩
  · exact absurd hc hreact

/-! ## Commands of a dispatch pass -/

theorem ticket_deliver {c : Coordinator} {a : Assignment} {cmd : Command} {ticket : Ticket}
    (hc : cmd ∈ c.deliver a) (ht : cmd.ticket? = some ticket) : ticket = a.ticket := by
  unfold deliver at hc
  split at hc
  · simp only [List.mem_cons, List.not_mem_nil, or_false] at hc
    rcases hc with rfl | rfl
    · cases ht
    · exact (Option.some.inj ht).symm
  · cases List.mem_singleton.1 hc
    exact (Option.some.inj ht).symm

theorem run_deliver {c : Coordinator} {a : Assignment} {w : Worker} {message : Wire.TaskMessage}
    {ticket : Ticket} (hc : .run w message ticket ∈ c.deliver a) :
    c.prepare a = .ok (w, message) := by
  unfold deliver at hc
  split at hc
  · rename_i v message' hok
    simp only [List.mem_cons, reduceCtorEq, Command.run.injEq, List.not_mem_nil, or_false,
      false_or] at hc
    obtain ⟨rfl, rfl, _⟩ := hc
    exact hok
  · cases List.mem_singleton.1 hc

theorem ticket_brings {cmd : Command} {w : WorkerName} {n : TaskName} {ticket : Ticket}
    {reason : String} (h : cmd.brings (.dispatchFailed w n ticket reason) = true) :
    cmd.ticket? = some ticket := by
  unfold Command.brings at h
  split at h
  · rename_i heq
    cases heq
    simp only [Bool.and_eq_true, decide_eq_true_eq] at h
    rw [h.2]
    rfl
  · rename_i heq
    cases heq
    simp only [Bool.and_eq_true, decide_eq_true_eq] at h
    rw [h.2]
    rfl
  · rename_i heq
    cases heq
  · cases h

theorem prepare_eq_ok {c : Coordinator} {a : Assignment} {w : Worker}
    {message : Wire.TaskMessage} : c.prepare a = .ok (w, message) ↔
      c.fleet.worker? a.worker = some w ∧ ∃ s, c.sessions.find? a.task.session = some s ∧
        message = taskMessage c.fleet s a.task := by
  unfold prepare
  cases c.fleet.worker? a.worker with
  | none => simp
  | some v =>
    cases c.sessions.find? a.task.session with
    | none => simp
    | some s => simp [eq_comm]

/-- A failed delivery is reported of the worker that the task was for. -/
theorem deliver_brings {c : Coordinator} (hf : Fleet.Orderly c.fleet.members) {a : Assignment}
    {cmd : Command} (hc : cmd ∈ c.deliver a) {w : WorkerName} {n : TaskName} {ticket : Ticket}
    {reason : String} (h : cmd.brings (.dispatchFailed w n ticket reason) = true) :
    w = a.worker := by
  unfold deliver at hc
  split at hc
  · rename_i v message hok
    simp only [List.mem_cons, List.not_mem_nil, or_false] at hc
    rcases hc with rfl | rfl
    · cases h
    · simp only [Command.brings, Bool.and_eq_true, decide_eq_true_eq] at h
      obtain ⟨member, hm, rfl⟩ := Option.map_eq_some_iff.1 (prepare_eq_ok.1 hok).1
      exact h.1.1.trans (hf a.worker member hm).named
  · cases List.mem_singleton.1 hc
    simp only [Command.brings, Event.undelivered, Bool.and_eq_true, decide_eq_true_eq] at h
    exact h.1.1

/-! ## Tickets -/

/-- The tasks are the same but for what may change on the way. -/
def Alike (a b : Assignment) : Prop :=
  a.task.gist = b.task.gist ∧ a.worker = b.worker ∧ a.ticket = b.ticket

structure Ticketed (cmds : List Command) (c : Coordinator) : Prop where
  issued : ∀ cmd ∈ cmds, ∀ ticket, cmd.ticket? = some ticket → ticket < c.schedule.nextTicket
  flying : ∀ n a, c.schedule.inFlight.find? n = some a → a.ticket < c.schedule.nextTicket
  origin : ∀ n a, c.schedule.inFlight.find? n = some a →
    ∀ cmd ∈ cmds, cmd.ticket? = some a.ticket →
      ∃ d b, cmd ∈ deliver d b ∧ Fleet.Orderly d.fleet.members ∧ Alike b a

variable {cmds : List Command} {c c' : Coordinator} {m : Moment} {event : Event}

theorem Ticketed.congr (h : Ticketed cmds c)
    (ht : c'.schedule.nextTicket = c.schedule.nextTicket)
    (hf : ∀ n a, c'.schedule.inFlight.find? n = some a →
      ∃ b, c.schedule.inFlight.find? n = some b ∧ Alike b a) : Ticketed cmds c' := by
  refine ⟨ht ▸ h.issued, fun n a ha => ?_, fun n a ha cmd hc hticket => ?_⟩
  · obtain ⟨b, hb, _, _, hab⟩ := hf n a ha
    rw [ht, ← hab]
    exact h.flying n b hb
  · obtain ⟨b, hb, hgist, hworker, hab⟩ := hf n a ha
    obtain ⟨d, b', hd, hmembers, hgist', hworker', hab'⟩ :=
      h.origin n b hb cmd hc (hab ▸ hticket)
    exact ⟨d, b', hd, hmembers, hgist'.trans hgist, hworker'.trans hworker, hab'.trans hab⟩

theorem react_flights (c : Coordinator) (m : Moment) (event : Event) :
    (c.react m event).coordinator.schedule.nextTicket = c.schedule.nextTicket ∧
    ∀ n a, (c.react m event).coordinator.schedule.inFlight.find? n = some a →
      ∃ b, c.schedule.inFlight.find? n = some b ∧ Alike b a := by
  obtain ⟨ht, hf⟩ := opening_flights c m event
  obtain ⟨_, _, _, hsteady⟩ := tellAll_frame m.now (c.opening m event).coordinator
    (c.opening m event).notices
  rw [react_eq]
  refine ⟨?_, fun n a ha => ?_⟩
  · rw [Schedule.nextTicket, hsteady.tickets]
    exact ht
  · obtain ⟨b, hb, halike⟩ := Schedule.find?_of_flights hsteady.flights ha
    exact ⟨b, hf n b hb, halike⟩

theorem members_dispatch (now : Nat) (c : Coordinator) :
    (dispatch now c).coordinator.fleet.members = c.fleet.members := by
  obtain ⟨as, hd⟩ := Schedule.dealt_dispatch c.schedule c.fleet now
  exact hd.members

/-- The commands of a dispatch pass have its tickets, which nothing had before. -/
theorem dispatch_ticketed (h : Ticketed cmds c) (hf : Fleet.Orderly c.fleet.members) (now : Nat) :
    Ticketed ((dispatch now c).commands ++ cmds) (dispatch now c).coordinator := by
  obtain ⟨as, hd⟩ := Schedule.dealt_dispatch c.schedule c.fleet now
  have hmembers : Fleet.Orderly (dispatch now c).coordinator.fleet.members := by
    rw [members_dispatch]
    exact hf
  have hnew : ∀ cmd ∈ (dispatch now c).commands, ∀ ticket, cmd.ticket? = some ticket →
      ∃ b ∈ as, cmd ∈ (dispatch now c).coordinator.deliver b ∧ ticket = b.ticket := by
    intro cmd hc ticket ht
    obtain ⟨b, hb, hcmd⟩ := List.mem_flatMap.1 hc
    exact ⟨b, hd.made b hb, hcmd, ticket_deliver hcmd ht⟩
  refine ⟨fun cmd hc ticket ht => ?_, hd.flying h.flying, fun n a ha cmd hc ht => ?_⟩
  · rcases List.mem_append.1 hc with hc | hc
    · obtain ⟨b, hb, _, rfl⟩ := hnew cmd hc ticket ht
      exact (hd.ticket hb).2
    · exact Nat.lt_of_lt_of_le (h.issued cmd hc ticket ht) hd.nextTicket_le
  · -- the tickets of the pass were never given out, so old commands are not about new assignments
    rcases hd.find? ha with ⟨ha, _⟩ | ha
    · rcases List.mem_append.1 hc with hc | hc
      · obtain ⟨b, hb, hcmd, heq⟩ := hnew cmd hc a.ticket ht
        cases List.inj_on_of_nodup_map hd.tickets_nodup ha hb heq
        exact ⟨_, a, hcmd, hmembers, rfl, rfl, rfl⟩
      · exact absurd (h.issued cmd hc a.ticket ht) (Nat.not_lt.2 (hd.ticket ha).1)
    · rcases List.mem_append.1 hc with hc | hc
      · obtain ⟨b, hb, _, heq⟩ := hnew cmd hc a.ticket ht
        exact absurd (heq ▸ h.flying n a ha) (Nat.not_lt.2 (hd.ticket hb).1)
      · exact h.origin n a ha cmd hc ht

theorem handle_ticketed (h : Ticketed cmds c)
    (hf : Fleet.Orderly (c.react m event).coordinator.fleet.members) :
    Ticketed ((c.handle m event).commands ++ cmds) (c.handle m event).coordinator := by
  obtain ⟨ht, hflights⟩ := react_flights c m event
  have hreact := h.congr ht hflights
  have hquiet : ∀ {d : Coordinator} {new : List Command}, (∀ cmd ∈ new, cmd.ticket? = none) →
      ∀ {old : List Command}, Ticketed old d → Ticketed (new ++ old) d := by
    intro d new hnew old hold
    refine ⟨fun cmd hc ticket hticket => ?_, hold.flying, fun n a ha cmd hc hticket => ?_⟩
    · rcases List.mem_append.1 hc with hc | hc
      · simp [hnew cmd hc] at hticket
      · exact hold.issued cmd hc ticket hticket
    · rcases List.mem_append.1 hc with hc | hc
      · simp [hnew cmd hc] at hticket
      · exact hold.origin n a ha cmd hc hticket
  have hcommands := react_commands c m event
  simp only [handle]
  split
  · rw [List.append_assoc]
    exact hquiet hcommands (dispatch_ticketed hreact hf m.now)
  · exact hquiet hcommands hreact

/-! ## Runs -/

theorem reacted_orderly (h : Fleet.Orderly c.fleet.members) (m : Moment) (event : Event) :
    Fleet.Orderly (c.react m event).coordinator.fleet.members := by
  rw [react_eq, (tellAll_frame m.now _ _).1]
  exact opening_orderly h m event

/-- In every run, the commands with the ticket of a task that is on a worker are about that task. -/
theorem after_ticketed (settings : Settings) (past : List (Moment × Event)) :
    Fleet.Orderly (after settings past).fleet.members ∧
    Ticketed (commands settings past) (after settings past) := by
  induction past with
  | nil =>
    refine ⟨?_, ?_, ?_, ?_⟩
    · intro w member hm
      cases hm
    · intro cmd hc ticket ht
      cases List.mem_singleton.1 hc
      cases ht
    · intro n a ha
      cases ha
    · intro n a ha
      cases ha
  | cons p past ih =>
    obtain ⟨m, event⟩ := p
    obtain ⟨horderly, hticketed⟩ := ih
    have hreact := reacted_orderly horderly m event
    refine ⟨?_, handle_ticketed hticketed hreact⟩
    refine handle_of_react (P := fun c => Fleet.Orderly c.fleet.members) hreact ?_
    intro c h
    rw [members_dispatch]
    exact h

end Coordinator
end RenderFarm
