import RenderFarm.Proofs.Coordinator.Occupancy
import RenderFarm.Proofs.Coordinator.Payloads
import RenderFarm.Proofs.Coordinator.Staffing

/-!
# RenderFarm.Proofs.Coordinator.Backing

What finished merges are credited with, and what their workers were sent to merge.

A worker is not sent the inputs whose holders have left the cluster; what it then merges is worth
less than the group. A worker that states the weight says so. One that states none is credited with
the whole group, so its result counts for units that are not in it.

* `Sent cmds c`: every task that is on a worker was sent to it.
* `credits settings past`: the merges of a run that were reported finished by their workers.
* `credits_backed`: which of them are credited with no more than was sent.
* `credit_unbacked`: a run in which a result is credited with a unit that it does not contain.
-/

namespace RenderFarm
namespace Coordinator

/-! ## Every task is sent -/

def Sent (cmds : List Command) (c : Coordinator) : Prop :=
  ∀ n a, c.schedule.inFlight.find? n = some a → ∃ w message, .run w message a.ticket ∈ cmds

variable {past : List (Moment × Event)} {cmds cmds' : List Command} {c c' : Coordinator}
  {m : Moment} {event : Event}

theorem Sent.mono (h : Sent cmds c) (hs : ∀ cmd ∈ cmds, cmd ∈ cmds') : Sent cmds' c := by
  intro n a ha
  obtain ⟨w, message, hc⟩ := h n a ha
  exact ⟨w, message, hs _ hc⟩

theorem react_sent (h : Sent cmds c) : Sent cmds (c.react m event).coordinator := by
  intro n a ha
  obtain ⟨b, hb, _, _, hticket⟩ := (react_flights c m event).2 n a ha
  rw [← hticket]
  exact h n b hb

/-- The worker of an assignment is in the cluster, and the session of its task goes on as long as
the execution does, so the task can be sent. -/
theorem prepare_ok (hs : Staffed c) (ha : Agrees [] c) (ho : Occupied c) (hl : Loaded c)
    {a : Assignment} (hw : a.worker ∈ c.schedule.idle) (ht : a.task.gist ∈ c.schedule.queue)
    (hf : c'.fleet.members = c.fleet.members) (hsessions : c'.sessions = c.sessions) :
    ∃ w message, c'.prepare a = .ok (w, message) := by
  obtain ⟨w, member, hm, hw, _⟩ := hs.lives (.inl hw)
  have hworker : c'.fleet.worker? a.worker = some w := by
    rw [Fleet.worker?, hf, hm, Option.map_some, hw]
  -- tasks of executions that are over wait no longer, and a session outlives what runs in it
  have htag := mem_scheduled_queue ht
  obtain ⟨e, he, _⟩ := ha.known _ _ (List.mem_append_left _ htag)
  have hrun : e.isTerminal = false := by
    rw [← Bool.not_eq_true]
    intro hover
    refine ha.dropped _ e he hover a.task.name ?_
    rw [← Schedule.tags_queue]
    exact List.mem_map_of_mem (f := Task.tag) ht
  obtain ⟨s, hfind⟩ := ho.housed _ _ ⟨e, he, rfl, hrun⟩
  rw [← ((suits_gist.1 (hl.waiting _ ht)) e he).1, ← hsessions] at hfind
  exact ⟨w, _, prepare_eq_ok.2 ⟨hworker, s, hfind, rfl⟩⟩

/-- What a dispatch pass has to find to send all that it takes from the queue. -/
structure Ready (c : Coordinator) : Prop where
  staffed : Staffed c
  agrees : Agrees [] c
  occupied : Occupied c
  loaded : Loaded c
  room : c.schedule.nextTicket + min c.schedule.pending.length c.schedule.idle.length ≤ Word.top

/-- Every assignment of such a pass can be sent. -/
theorem Ready.prepared (h : Ready c) {now : Nat} {as : List Assignment}
    (hd : Schedule.Dealt c.schedule.pending c.schedule c.fleet as
      (c.schedule.dispatch c.fleet now)) {a : Assignment} (ha : a ∈ as) :
    ∃ w message, (dispatch now c).coordinator.prepare a = .ok (w, message) := by
  have hworker : a.worker ∈ c.schedule.idle :=
    hd.workers.subset (List.mem_append_left _ (List.mem_map_of_mem ha))
  have hqueue : a.task.gist ∈ c.schedule.queue :=
    hd.tasks.subset (List.mem_append_left _ (List.mem_map_of_mem (f := fun a => a.task.gist) ha))
  exact prepare_ok h.staffed h.agrees h.occupied h.loaded hworker hqueue hd.members rfl

theorem dispatch_sent (h : Sent cmds c) (hr : Ready c) (now : Nat) :
    Sent ((dispatch now c).commands ++ cmds) (dispatch now c).coordinator := by
  obtain ⟨as, hd⟩ := Schedule.dealt_dispatch c.schedule c.fleet now
  obtain ⟨hmade, _⟩ := hd.all hr.room
  intro n a ha
  rcases hd.find? ha with ⟨ha, _⟩ | ha
  · obtain ⟨w, message, hok⟩ := hr.prepared hd ha
    have hdeliver : .run w message a.ticket ∈ (dispatch now c).coordinator.deliver a := by
      simp only [deliver, hok]
      exact List.mem_cons_of_mem _ List.mem_cons_self
    refine ⟨w, message, List.mem_append_left _ (List.mem_flatMap.2 ⟨a, ?_, hdeliver⟩)⟩
    rw [hmade]
    exact ha
  · obtain ⟨w, message, hc⟩ := h n a ha
    exact ⟨w, message, List.mem_append_right _ hc⟩

/-- In every run, a dispatch pass finds what it has to find. -/
theorem reacted_ready (settings : Settings)
    (hd : dispatches settings ((m, event) :: past) < Word.top)
    (hg : genuine settings ((m, event) :: past) = true) (hn : (stamps ((m, event) :: past)).Nodup)
    (hwakes : ((after settings past).react m event).wakes = true) :
    Ready ((after settings past).react m event).coordinator := by
  have hsum : dispatches settings ((m, event) :: past)
    = dispatches settings past + (after settings past).due m event := rfl
  simp only [genuine, Bool.and_eq_true] at hg
  have hn' := stamps_tail hn
  obtain ⟨hagrees, hroom⟩ := reacted_agrees settings hd hn
  have hstaffed := (after_staffed settings (by omega) hg.2).1
  have hgrounded := after_grounded settings past
  have hsettled := (after_settled settings hn').1
  exact ⟨hstaffed.reacted (after_ticketed settings past).2 hg.1, hagrees,
    reacted_occupied hgrounded (after_occupied settings hn') hn,
    reacted_loaded hgrounded hsettled (after_loaded settings hn') hn, hroom hwakes⟩

theorem after_sent (settings : Settings) {past : List (Moment × Event)}
    (hd : dispatches settings past < Word.top) (hg : genuine settings past = true)
    (hn : (stamps past).Nodup) : Sent (commands settings past) (after settings past) := by
  induction past with
  | nil =>
    intro n a ha
    cases ha
  | cons p past ih =>
    obtain ⟨m, event⟩ := p
    have hsum : dispatches settings ((m, event) :: past)
      = dispatches settings past + (after settings past).due m event := rfl
    have hg' : genuine settings past = true := by
      simp only [genuine, Bool.and_eq_true] at hg
      exact hg.2
    have hsent : Sent (commands settings past) ((after settings past).react m event).coordinator :=
      react_sent (ih (by omega) hg' (stamps_tail hn))
    simp only [commands, given, after, handle]
    split
    · rename_i hwakes
      refine (dispatch_sent hsent (reacted_ready settings hd hg hn hwakes) m.now).mono
        fun cmd hc => ?_
      rw [List.append_assoc]
      exact List.mem_append_right _ hc
    · exact hsent.mono fun cmd hc => List.mem_append_right _ hc

/-! ## Credits -/

/-- A merge that has been reported finished: its group, the weight that the report states, and the
message that the worker was sent. -/
structure Credit where
  group : MergeGroup
  stated : Option Nat
  message : Option Wire.TaskMessage

namespace Credit

variable (k : Credit)

def credited : Nat := Execution.creditedWeight k.group k.stated

def inputs : List Wire.InputMessage := (k.message.map Wire.TaskMessage.inputs).getD []

/-- The units that the inputs in the message stand for. -/
def delivered : Nat := (k.inputs.map Wire.InputMessage.weight).sum

/-- A worker that states a weight states no more than it was sent. -/
def Honest : Prop := ∀ w ∈ k.stated, w ≤ k.delivered

instance : Decidable k.Honest := inferInstanceAs (Decidable (∀ w ∈ k.stated, w ≤ k.delivered))

/-- No input of the group was left out of the message. -/
def Whole : Prop := k.inputs.length = k.group.inputs.length

end Credit

/-- The message that was sent with the ticket. -/
def sentWith? (cmds : List Command) (ticket : Ticket) : Option Wire.TaskMessage :=
  cmds.findSome? fun
    | .run _ message t => if t = ticket then some message else none
    | _ => none

/-- What the event has a merge credited with, if it is the report of the worker that the merge is
on, and the execution is not over. -/
def credit? (cmds : List Command) (c : Coordinator) : Event → Option Credit
  | .taskFinished w n _ stated _ =>
    match c.schedule.inFlight.find? n with
    | none => none
    | some a =>
      match c.executions.find? a.task.execution with
      | none => none
      | some e =>
        if a.worker = w ∧ e.isTerminal = false ∧ n ∉ e.producing then
          (e.group? n).map fun group => ⟨group, stated, sentWith? cmds a.ticket⟩
        else none
  | _ => none

def credits (settings : Settings) : List (Moment × Event) → List Credit
  | [] => []
  | (_, event) :: past =>
    (credit? (commands settings past) (after settings past) event).toList ++ credits settings past

/-! ## What a credit rests on -/

section Inputs

variable (f : Fleet) (rs : List PartialResult)

theorem sum_inputs_le :
    ((rs.filterMap (inputMessage? f)).map Wire.InputMessage.weight).sum ≤ totalWeight rs := by
  induction rs with
  | nil => exact Nat.le_refl _
  | cons r rs ih =>
    have hunits : totalWeight (r :: rs) = r.weight + totalWeight rs := rfl
    rw [hunits, List.filterMap_cons]
    cases hr : f.worker? r.worker with
    | none =>
      simp only [inputMessage?, hr, Option.map_none]
      exact Nat.le_trans ih (Nat.le_add_left _ _)
    | some w =>
      simp only [inputMessage?, hr, Option.map_some, List.map_cons, List.sum_cons]
      exact Nat.add_le_add_left ih _

/-- Every input stands for something, so each that is left out is missed. -/
theorem units_le_sum_inputs {rs : List PartialResult} (hpos : ∀ r ∈ rs, 0 < r.weight) :
    totalWeight rs ≤ ((rs.filterMap (inputMessage? f)).map Wire.InputMessage.weight).sum ↔
      (rs.filterMap (inputMessage? f)).length = rs.length := by
  induction rs with
  | nil => simp
  | cons r rs ih =>
    have ih := ih fun r hr => hpos r (List.mem_cons_of_mem _ hr)
    have hunits : totalWeight (r :: rs) = r.weight + totalWeight rs := rfl
    rw [hunits, List.filterMap_cons]
    cases hr : f.worker? r.worker with
    | none =>
      have hsum := sum_inputs_le f rs
      have hlength := List.length_filterMap_le (inputMessage? f) rs
      have := hpos r List.mem_cons_self
      simp only [inputMessage?, hr, Option.map_none, List.length_cons] at *
      omega
    | some w =>
      simp only [inputMessage?, hr, Option.map_some, List.map_cons, List.sum_cons,
        List.length_cons, Nat.add_right_cancel_iff]
      rw [Nat.add_le_add_iff_left]
      exact ih

end Inputs

theorem sentWith?_eq_some {ticket : Ticket} {message : Wire.TaskMessage}
    (h : sentWith? cmds ticket = some message) : ∃ w, .run w message ticket ∈ cmds := by
  obtain ⟨cmd, hc, hcmd⟩ := List.exists_of_findSome?_eq_some h
  split at hcmd
  · rename_i w message' t
    split at hcmd
    · rename_i ht
      cases hcmd
      exact ⟨w, ht ▸ hc⟩
    · cases hcmd
  · cases hcmd

theorem sentWith?_isSome {ticket : Ticket} {w : Worker} {message : Wire.TaskMessage}
    (hc : .run w message ticket ∈ cmds) : (sentWith? cmds ticket).isSome = true := by
  rw [sentWith?, List.isSome_findSome?, List.any_eq_true]
  exact ⟨_, hc, by simp⟩

variable {k : Credit}

section Finished

variable {w : WorkerName} {n : TaskName} {elapsed : Nat} {stated : Option Nat}
  {cached : Option (List SessionName)}

theorem credit?_finished (h : credit? cmds c (.taskFinished w n elapsed stated cached) = some k) :
    ∃ a e g, c.schedule.inFlight.find? n = some a ∧ a.worker = w ∧
      c.executions.find? a.task.execution = some e ∧ e.isTerminal = false ∧ n ∉ e.producing ∧
      e.group? n = some g ∧ k = ⟨g, stated, sentWith? cmds a.ticket⟩ := by
  simp only [credit?] at h
  split at h
  · cases h
  · rename_i a ha
    split at h
    · cases h
    · rename_i e he
      split at h
      · rename_i hcond
        obtain ⟨g, hg, rfl⟩ := Option.map_eq_some_iff.1 h
        exact ⟨a, e, g, ha, hcond.1, he, hcond.2.1, hcond.2.2, hg, rfl⟩
      · cases h

/-- The execution is told of the merge, and what it is credited with less than its group is lost. -/
theorem credit_taken (h : credit? cmds c (.taskFinished w n elapsed stated cached) = some k)
    (m : Moment) : ∃ x e ctx, c.executions.find? x = some e ∧
      (c.opening m (.taskFinished w n elapsed stated cached)).notices
        = [(x, .finish ⟨n, w, elapsed, stated⟩ ctx)] ∧
      e.lostBy (.finish ⟨n, w, elapsed, stated⟩ ctx) = k.group.weight - k.credited := by
  obtain ⟨a, e, g, ha, hw, he, hrun, hp, hg, rfl⟩ := credit?_finished h
  have hs := (still_noteCaches c w cached).schedule
  refine ⟨a.task.execution, e, (c.noteCaches w cached).context a.task.session m.now, he, ?_, ?_⟩
  · simp only [opening, hs, Schedule.complete, ha, hw, if_true]
    split
    · rename_i hnone
      split at hnone <;> cases hnone
    · rename_i hsome
      split at hsome <;> cases hsome <;> rfl
  · simp [Execution.lostBy, hrun, hp, hg, Credit.credited]

end Finished

theorem credit?_eq_some (h : credit? cmds c event = some k) :
    ∃ n a e, c.schedule.inFlight.find? n = some a ∧
      c.executions.find? a.task.execution = some e ∧ e.Merges n k.group ∧
      k.message = sentWith? cmds a.ticket := by
  cases event with
  | taskFinished w n elapsed stated cached =>
    obtain ⟨a, e, g, ha, _, he, _, _, hg, rfl⟩ := credit?_finished h
    exact ⟨n, a, e, ha, he, Execution.merges_of_group? hg, rfl⟩
  | _ => cases h

/-- The inputs in the message are those of the group, without the ones whose holders are gone. -/
theorem inputs_sent (hk : c.schedule.Keyed) (hl : Loaded c) (ht : Ticketed cmds c)
    (h : credit? cmds c event = some k) :
    ∃ f, k.inputs = k.group.inputs.filterMap (inputMessage? f) := by
  obtain ⟨n, a, e, ha, he, hm, hmessage⟩ := credit?_eq_some h
  cases hsent : sentWith? cmds a.ticket with
  | none =>
    -- nothing was sent, as if to a fleet without workers
    refine ⟨.new 0, ?_⟩
    rw [Credit.inputs, hmessage, hsent]
    exact (List.filterMap_eq_nil_iff.2 fun r _ => rfl).symm
  | some message =>
    -- the ticket leads back to the assignment that the message was made for
    obtain ⟨w, hc⟩ := sentWith?_eq_some hsent
    obtain ⟨d, b, hd, _, halike, _⟩ := ht.origin n a ha _ hc rfl
    obtain ⟨_, s, _, rfl⟩ := prepare_eq_ok.1 (run_deliver hd)
    have hname : a.task.name = n := hk n a (OrderedMap.mem_entries_iff.2 ha)
    have hwork := (hl.flying n a ha e he).2 k.group (hname ▸ hm)
    rw [← Task.work_gist, ← halike, Task.work_gist] at hwork
    refine ⟨d.fleet, ?_⟩
    rw [Credit.inputs, hmessage, hsent]
    simp only [Option.map_some, Option.getD_some, taskMessage, hwork]

theorem credit_backed (hg : Grounded past c) (hk : c.schedule.Keyed) (hl : Loaded c)
    (ht : Ticketed cmds c) (h : credit? cmds c event = some k) (hh : k.Honest) :
    k.credited ≤ k.delivered ↔ k.stated.isSome = true ∨ k.Whole := by
  cases hstated : k.stated with
  | some w =>
    have hle : k.credited ≤ w := by
      rw [Credit.credited, hstated]
      exact Nat.min_le_left _ _
    simp only [Option.isSome_some, true_or, iff_true]
    exact Nat.le_trans hle (hh w hstated)
  | none =>
    obtain ⟨n, a, e, ha, he, hm, _⟩ := credit?_eq_some h
    obtain ⟨f, hinputs⟩ := inputs_sent hk hl ht h
    have hcredited : k.credited = totalWeight k.group.inputs := by
      rw [Credit.credited, hstated]
      exact Nat.min_self _
    simp only [Option.isSome_none, Bool.false_eq_true, false_or]
    rw [hcredited, Credit.delivered, Credit.Whole, hinputs]
    exact units_le_sum_inputs f ((hg.arisen _ e he).inputs hm)

/-! ## Runs -/

/-- What the credits of a run rest on. A merge whose worker states no weight is credited with more
than was sent exactly if an input was left out. -/
structure Backed (settings : Settings) (past : List (Moment × Event)) : Prop where
  backed : ∀ k ∈ credits settings past, k.Honest →
    (k.credited ≤ k.delivered ↔ k.stated.isSome = true ∨ k.Whole)
  sent : dispatches settings past < Word.top → genuine settings past = true →
    ∀ k ∈ credits settings past, k.message.isSome = true

/-- In every run in which no name comes twice (`stamps_nodup`), the credits are backed by what was
sent but for the merges that have lost an input on the way and whose workers state no weight. -/
theorem credits_backed (settings : Settings) (past : List (Moment × Event))
    (hn : (stamps past).Nodup) : Backed settings past := by
  induction past with
  | nil =>
    refine ⟨?_, fun _ _ => ?_⟩
    · intro k hk
      cases hk
    · intro k hk
      cases hk
  | cons p past ih =>
    obtain ⟨m, event⟩ := p
    have hn' := stamps_tail hn
    obtain ⟨hbacked, hsent⟩ := ih hn'
    refine ⟨fun k hk => ?_, fun hd hg k hk => ?_⟩
    · rcases List.mem_append.1 hk with hk | hk
      · exact credit_backed (after_grounded settings past)
          (after_settled settings hn').1.keyed (after_loaded settings hn')
          (after_ticketed settings past).2 (Option.mem_toList.1 hk)
      · exact hbacked k hk
    · have hsum : dispatches settings ((m, event) :: past)
        = dispatches settings past + (after settings past).due m event := rfl
      have hd' : dispatches settings past < Word.top := by omega
      simp only [genuine, Bool.and_eq_true] at hg
      rcases List.mem_append.1 hk with hk | hk
      · obtain ⟨n, a, _, ha, _, _, hmessage⟩ := credit?_eq_some (Option.mem_toList.1 hk)
        obtain ⟨w, message, hc⟩ := after_sent settings hd' hg.2 hn' n a ha
        rw [hmessage]
        exact sentWith?_isSome hc
      · exact hsent hd' hg.2 k hk

/-- Two workers and an execution of two units. The first worker leaves with the result of the merge
`task3`, so the second is sent the final merge `task5` without it, and states no weight. -/
def lossyRun : List (Moment × Event) :=
  [finished "w2" 5, finished "w2" 4, .instancesListed (.ok [worker "w2"]), finished "w1" 3,
    finished "w2" 2, finished "w1" 1, .createExecution ⟨⟨"session7-1"⟩, none, 2, none⟩,
    .createSession ⟨none, [], "p", "f"⟩, .pong ⟨⟨"w2"⟩, [], []⟩, .pong ⟨⟨"w1"⟩, [], []⟩,
    .instancesListed (.ok [worker "w1", worker "w2"])].map fun e => (⟨"7", 0⟩, e)
where
  worker (name : String) : Worker := ⟨⟨name⟩, "10.0.0.1", 5000, 9000⟩
  finished (w : String) (n : Nat) : Event :=
    .taskFinished ⟨w⟩ (.ofExecution ⟨"execution7-2"⟩ n) 10 none none

theorem credits_backed_sample :
    Backed sampleSettings lossyRun ∧ dispatches sampleSettings lossyRun < Word.top ∧
    genuine sampleSettings lossyRun = true ∧
    (credits sampleSettings lossyRun).map (fun k => (k.credited, k.delivered))
      = [(2, 1), (1, 1), (1, 1)] :=
  ⟨credits_backed sampleSettings lossyRun (stamps_nodup (by decide)), by decide +kernel,
    by decide +kernel, by decide +kernel⟩

/-- The execution ends with a result of weight two, although the message of the final merge has one
input of weight one. Nobody has stated a weight. -/
theorem credit_unbacked :
    (∀ k ∈ credits sampleSettings lossyRun, k.Honest) ∧
    (∃ k ∈ credits sampleSettings lossyRun, k.message.isSome = true ∧
      ¬ k.credited ≤ k.delivered) ∧
    ((after sampleSettings lossyRun).executions.find? ⟨"execution7-2"⟩).bind Execution.result
      = some ⟨⟨"execution7-2-task5"⟩, ⟨"w2"⟩, 2⟩ :=
  ⟨by decide +kernel, by decide +kernel, by decide +kernel⟩

end Coordinator
end RenderFarm
