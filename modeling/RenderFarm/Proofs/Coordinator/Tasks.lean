import RenderFarm.Coordinator.Handle
import RenderFarm.Proofs.Execution.Actions
import RenderFarm.Proofs.Schedule

/-!
# RenderFarm.Proofs.Coordinator.Tasks

The executions and the schedule keep the same set of tasks, each on its own.

* `Agrees hand c`: they agree, if the tasks `hand` are counted that have left the schedule and that
  no execution has been told about yet.
* `Stays c c'`: nothing is added but tasks of the executions that there are.
* `follow_agrees`: an execution that takes a call and has its actions carried out still agrees.
-/

namespace RenderFarm
namespace Coordinator

open Execution (tasksOf Action Call Sound)

/-- The tasks in the schedule. -/
def scheduled (c : Coordinator) : List Tag := c.schedule.waiting ++ c.schedule.running

/-- The tasks are of executions that there are, and numbered below the next of them. -/
def Known (tags : List Tag) (c : Coordinator) : Prop :=
  ∀ x n, (x, n) ∈ tags →
    ∃ e, c.executions.find? x = some e ∧ ∃ k < e.nextTask, n = .ofExecution x k

structure Agrees (hand : List Tag) (c : Coordinator) : Prop where
  keyed : c.schedule.Keyed
  nodup : (c.scheduled ++ hand).Nodup
  sound : ∀ x e, c.executions.find? x = some e → e.name = x ∧ Sound e
  known : Known (c.scheduled ++ hand) c
  agree : ∀ x e, c.executions.find? x = some e → e.isTerminal = false →
    ∀ n, n ∈ e.outstanding ↔ (x, n) ∈ c.scheduled ++ hand
  dropped : ∀ x e, c.executions.find? x = some e → e.isTerminal = true →
    ∀ n, (x, n) ∉ c.schedule.waiting

structure Stays (c c' : Coordinator) : Prop where
  names : c'.names = c.names
  tickets : c'.schedule.nextTicket = c.schedule.nextTicket
  executions : c'.executions.keys = c.executions.keys

theorem Stays.refl (c : Coordinator) : Stays c c := ⟨rfl, rfl, rfl⟩

theorem Stays.trans {c₁ c₂ c₃ : Coordinator} (h : Stays c₁ c₂) (h' : Stays c₂ c₃) : Stays c₁ c₃ :=
  ⟨h'.names.trans h.names, h'.tickets.trans h.tickets, h'.executions.trans h.executions⟩

namespace Agrees

variable {hand hand' : List Tag} {c c' : Coordinator}

/-- Only where the tasks are counts, and what the executions are. -/
theorem congr (h : Agrees hand c) (hx : ∀ x, c'.executions.find? x = c.executions.find? x)
    (hk : c'.schedule.Keyed) (hw : ∀ g ∈ c'.schedule.waiting, g ∈ c.schedule.waiting)
    (hp : (c'.scheduled ++ hand').Perm (c.scheduled ++ hand)) : Agrees hand' c' where
  keyed := hk
  nodup := hp.nodup_iff.2 h.nodup
  sound := fun x e he => h.sound x e (hx x ▸ he)
  known := fun x n hn => by
    rw [hx]
    exact h.known x n (hp.mem_iff.1 hn)
  agree := fun x e he ht n => (h.agree x e (hx x ▸ he) ht n).trans hp.mem_iff.symm
  dropped := fun x e he ht n hn => h.dropped x e (hx x ▸ he) ht n (hw _ hn)

/-- A task of an execution that is over need not be told to it. -/
theorem drop {x : ExecutionName} {n : TaskName} {e : Execution} (h : Agrees ((x, n) :: hand) c)
    (he : c.executions.find? x = some e) (ht : e.isTerminal = true) : Agrees hand c := by
  have hsub : (c.scheduled ++ hand).Sublist (c.scheduled ++ (x, n) :: hand) :=
    (List.sublist_cons_self _ _).append_left _
  refine ⟨h.keyed, h.nodup.sublist hsub, h.sound, fun x' n' hn => h.known x' n' (hsub.subset hn),
    fun x' e' he' ht' n' => ?_, h.dropped⟩
  have hne : x' ≠ x := by
    rintro rfl
    cases he.symm.trans he'
    simp [ht] at ht'
  rw [h.agree x' e' he' ht' n']
  simp [hne]

/-- Tasks that are taken off their workers are in hand. -/
theorem frees {s : Schedule} {out : List Tag} (h : Agrees hand c)
    (hf : c.schedule.Frees out s) : Agrees (out ++ hand) { c with schedule := s } := by
  refine h.congr (fun _ => rfl) (hf.keyed h.keyed) (fun g hg => ?_) ?_
  · rwa [← hf.waiting]
  · have hp := hf.running
    rw [List.perm_iff_count] at hp ⊢
    intro g
    have := hp g
    simp only [scheduled, hf.waiting, List.count_append] at *
    omega

end Agrees

theorem stays_frees {c : Coordinator} {s : Schedule} {out : List Tag}
    (hf : c.schedule.Frees out s) : Stays c { c with schedule := s } :=
  ⟨rfl, hf.tickets, rfl⟩

/-! ## Carrying out actions -/

theorem turns_append {α : Type} (f : Coordinator → α → Turn) (as bs : List α) (c : Coordinator) :
    (turns f (as ++ bs) c).coordinator = (turns f bs (turns f as c).coordinator).coordinator := by
  induction as generalizing c with
  | nil => rfl
  | cons a as ih => exact ih (f c a).coordinator

/-- What actions do that announce no end: the tasks among them wait. -/
structure Enacted (actions : List Action) (c c' : Coordinator) : Prop where
  executions : c'.executions = c.executions
  names : c'.names = c.names
  keeps : c.schedule.Keeps c'.schedule
  waiting : c'.schedule.waiting.Perm (c.schedule.waiting ++ (tasksOf actions).map Task.tag)

theorem enacted_act (x : ExecutionName) (now : Nat) (c : Coordinator) {a : Action}
    (ha : a.ends = false) : Enacted [a] c (act x now c a).coordinator := by
  cases a with
  | enqueue t =>
    exact ⟨rfl, rfl, Schedule.keeps_enqueue _ _, Schedule.waiting_enqueue c.schedule t⟩
  | adjustTimeout timeout =>
    have hw := Schedule.waiting_retime c.schedule x timeout now
    exact ⟨rfl, rfl, Schedule.keeps_retime _ _ _ now,
      (List.Perm.of_eq hw).trans (by simp [tasksOf])⟩
  | finish r => cases ha
  | fail reason => cases ha

theorem enacted_turns (x : ExecutionName) (now : Nat) (c : Coordinator) {actions : List Action}
    (ha : ∀ a ∈ actions, a.ends = false) :
    Enacted actions c (turns (act x now) actions c).coordinator := by
  induction actions generalizing c with
  | nil => exact ⟨rfl, rfl, .refl _, by simp [turns, tasksOf]⟩
  | cons a actions ih =>
    have h := enacted_act x now c (ha a List.mem_cons_self)
    have h' := ih (act x now c a).coordinator fun b hb => ha b (List.mem_cons_of_mem _ hb)
    refine ⟨h'.executions.trans h.executions, h'.names.trans h.names, h.keeps.trans h'.keeps, ?_⟩
    refine h'.waiting.trans ?_
    have hsplit : tasksOf (a :: actions) = tasksOf [a] ++ tasksOf actions :=
      Execution.tasksOf_append [a] actions
    rw [hsplit, List.map_append, ← List.append_assoc]
    exact h.waiting.append_right _

/-! ## Following an execution -/

theorem mem_map_mk {x y : ExecutionName} {n : TaskName} {ns : List TaskName} :
    (y, n) ∈ ns.map (Prod.mk x) ↔ y = x ∧ n ∈ ns := by
  simp only [List.mem_map, Prod.mk.injEq]
  constructor
  · rintro ⟨m, hm, rfl, rfl⟩
    exact ⟨rfl, hm⟩
  · rintro ⟨rfl, hn⟩
    exact ⟨n, hn, rfl, rfl⟩

/-- What is left of a list without repetition, once a part of it is taken off. -/
theorem mem_rest {α : Type} {out rest olds news : List α} (hp : (out ++ rest).Perm (olds ++ news))
    (hn : (out ++ rest).Nodup) {a : α} : a ∈ rest ↔ (a ∈ olds ∨ a ∈ news) ∧ a ∉ out := by
  rw [← List.mem_append, ← hp.mem_iff, List.mem_append]
  constructor
  · intro ha
    exact ⟨.inr ha, fun ho => (List.nodup_append.1 hn).2.2 a ho a ha rfl⟩
  · rintro ⟨ha | ha, ho⟩
    · exact absurd ha ho
    · exact ha

section Follow

variable {c c' : Coordinator} {x : ExecutionName} {e e' : Execution} {ended : List TaskName}
  {ts : List Task} {hand : List Tag}

theorem issued_tags (hx : e.name = x) (ha : Execution.Accounts e ended ts e') :
    ts.map Task.tag = (ts.map Task.name).map (Prod.mk x) := by
  rw [List.map_map]
  refine List.map_congr_left fun t ht => ?_
  simp [Task.tag, (ha.owner t ht).1, hx]

/-- No task that is issued has been heard of. -/
theorem issued_new {tags : List Tag} (hn : tags.Nodup) (hknown : Known tags c)
    (he : c.executions.find? x = some e) (hname : e.name = x)
    (ha : Execution.Accounts e ended ts e') :
    (tags ++ (ts.map Task.name).map (Prod.mk x)).Nodup := by
  refine List.nodup_append.2 ⟨hn, ?_, ?_⟩
  · exact List.Pairwise.map _ (fun _ _ hne heq => hne (Prod.mk.inj heq).2) ha.names_nodup
  · rintro ⟨y, n⟩ hold ⟨y', n'⟩ hnew heq
    cases heq
    obtain ⟨rfl, hn⟩ := mem_map_mk.1 hnew
    obtain ⟨e₀, he₀, k, hk, hk'⟩ := hknown _ _ hold
    cases he.symm.trans he₀
    obtain ⟨k', hle, _, hk''⟩ := ha.new_names hn
    rw [hname] at hk''
    have := (TaskName.ofExecution_inj.1 (hk'.symm.trans hk'')).2
    omega

theorem sound_follow (h : Agrees hand c) (he : c.executions.find? x = some e)
    (ha : Execution.Accounts e ended ts e')
    (hx : ∀ y, c'.executions.find? y = if x = y then some e' else c.executions.find? y)
    {y : ExecutionName} {f : Execution} (hf : c'.executions.find? y = some f) :
    f.name = y ∧ Sound f := by
  obtain ⟨hname, hsound⟩ := h.sound x e he
  rw [hx] at hf
  split at hf
  · rename_i hy
    cases hf
    exact ⟨(ha.terms.name.trans hname).trans hy, ha.sound hsound⟩
  · exact h.sound y f hf

theorem known_follow {tags : List Tag} (hknown : Known tags c)
    (he : c.executions.find? x = some e) (ha : Execution.Accounts e ended ts e')
    (hx : ∀ y, c'.executions.find? y = if x = y then some e' else c.executions.find? y) :
    Known tags c' := by
  intro y n hn
  obtain ⟨f, hf, k, hlt, hk⟩ := hknown y n hn
  rw [hx]
  split
  · rename_i hy
    cases he.symm.trans (hy ▸ hf)
    have := ha.next
    exact ⟨e', rfl, k, by omega, hk⟩
  · exact ⟨f, hf, k, hlt, hk⟩

/-- The tasks of an execution that goes on: what is over leaves, and what is issued waits. -/
theorem agrees_running (h : Agrees (ended.map (Prod.mk x) ++ hand) c)
    (he : c.executions.find? x = some e) (ht : e.isTerminal = false)
    (ha : Execution.Accounts e ended ts e')
    (hx : ∀ y, c'.executions.find? y = if x = y then some e' else c.executions.find? y)
    (ht' : e'.isTerminal = false) (hk : c.schedule.Keeps c'.schedule)
    (hw : c'.schedule.waiting.Perm (c.schedule.waiting ++ ts.map Task.tag)) :
    Agrees hand c' := by
  obtain ⟨hname, hsound⟩ := h.sound x e he
  have htags := issued_tags hname ha
  have hperm : (ended.map (Prod.mk x) ++ (c'.scheduled ++ hand)).Perm
      (c.scheduled ++ (ended.map (Prod.mk x) ++ hand) ++ (ts.map Task.name).map (Prod.mk x)) := by
    rw [List.perm_iff_count] at hw ⊢
    intro g
    have := hw g
    simp only [scheduled, hk.running, htags, List.count_append] at *
    omega
  have hnodup := hperm.nodup_iff.2 (issued_new h.nodup h.known he hname ha)
  have hmem : ∀ y n, (y, n) ∈ c'.scheduled ++ hand ↔
      ((y, n) ∈ c.scheduled ++ (ended.map (Prod.mk x) ++ hand) ∨ y = x ∧ n ∈ ts.map Task.name) ∧
      ¬ (y = x ∧ n ∈ ended) := fun y n => by
    rw [mem_rest hperm hnodup, mem_map_mk, mem_map_mk]
  refine ⟨hk.keyed h.keyed, hnodup.sublist (List.sublist_append_right _ _),
    fun y f => sound_follow h he ha hx, fun y n hn => ?_, ?_, ?_⟩
  · rcases ((hmem y n).1 hn).1 with hold | ⟨rfl, hts⟩
    · exact known_follow h.known he ha hx y n hold
    · obtain ⟨k, _, hlt, hk⟩ := ha.new_names hts
      exact ⟨e', by simp [hx], k, hlt, hname ▸ hk⟩
  · intro y f hf hrun n
    rw [hx] at hf
    rw [hmem]
    split at hf
    · rename_i hy
      cases hf
      subst hy
      rw [mem_rest ha.outstanding (ha.nodup hsound), h.agree x e he ht]
      simp
    · rename_i hy
      rw [h.agree y f hf hrun]
      simp [Ne.symm hy]
  · intro y f hf hover n hn
    rw [hx] at hf
    split at hf
    · cases hf
      simp [ht'] at hover
    · rename_i hy
      rcases List.mem_append.1 (hw.mem_iff.1 hn) with hn | hn
      · exact h.dropped y f hf hover n hn
      · rw [htags] at hn
        exact hy (mem_map_mk.1 hn).1.symm

/-- The tasks of an execution that ends: those that wait are dropped. -/
theorem agrees_over (h : Agrees (ended.map (Prod.mk x) ++ hand) c)
    (he : c.executions.find? x = some e) (ha : Execution.Accounts e ended ts e')
    (hx : ∀ y, c'.executions.find? y = if x = y then some e' else c.executions.find? y)
    (ht' : e'.isTerminal = true) (hk : c.schedule.Keeps c'.schedule)
    (hw : c'.schedule.waiting.Perm (c.schedule.waiting.filter fun g => g.1 ≠ x)) :
    Agrees hand c' := by
  have hperm : (c'.scheduled ++ hand).Perm
      ((c.schedule.waiting.filter fun g => g.1 ≠ x) ++ c.schedule.running ++ hand) := by
    simp only [scheduled, hk.running]
    exact (hw.append_right _).append_right _
  have hsub : ((c.schedule.waiting.filter fun g => g.1 ≠ x) ++ c.schedule.running ++ hand).Sublist
      (c.scheduled ++ (ended.map (Prod.mk x) ++ hand)) :=
    (List.filter_sublist.append_right _).append (List.sublist_append_right _ _)
  refine ⟨hk.keyed h.keyed, hperm.nodup_iff.2 (h.nodup.sublist hsub),
    fun y f => sound_follow h he ha hx,
    fun y n hn => known_follow h.known he ha hx y n (hsub.subset (hperm.mem_iff.1 hn)), ?_, ?_⟩
  · intro y f hf hrun n
    rw [hx] at hf
    split at hf
    · cases hf
      simp [ht'] at hrun
    · rename_i hy
      rw [h.agree y f hf hrun, hperm.mem_iff]
      simp [scheduled, hy, Ne.symm hy]
  · intro y f hf hover n hn
    rw [hx] at hf
    obtain ⟨hn, hy⟩ := List.mem_filter.1 (hw.mem_iff.1 hn)
    have hy : y ≠ x := by simpa using hy
    rw [if_neg hy.symm] at hf
    exact h.dropped y f hf hover n hn

/-- The end of an execution is the last thing that it asks for; its waiting tasks are dropped, those
that it has just issued among them. -/
theorem enacted_end (now : Nat) (c : Coordinator) {front : List Action} {last : Action}
    (hfront : ∀ a ∈ front, a.ends = false) (hlast : last.ends = true)
    (htags : ∀ t ∈ tasksOf front, t.execution = x) :
    let c' := (turns (act x now) (front ++ [last]) c).coordinator
    c'.executions = c.executions ∧ c'.names = c.names ∧ c.schedule.Keeps c'.schedule ∧
      c'.schedule.waiting.Perm (c.schedule.waiting.filter fun g => g.1 ≠ x) := by
  have h := enacted_turns x now c hfront
  have hact : ∀ c : Coordinator, (act x now c last).coordinator = c.endExecution x := by
    intro c
    cases last with
    | enqueue | adjustTimeout => cases hlast
    | finish | fail => rfl
  have hdropped : ((tasksOf front).map Task.tag).filter (fun g => g.1 ≠ x) = [] := by
    refine List.filter_eq_nil_iff.2 fun g hg => ?_
    obtain ⟨t, ht, rfl⟩ := List.mem_map.1 hg
    simp [Task.tag, htags t ht]
  simp only [turns_append, turns, Turn.andThen, hact]
  refine ⟨h.executions, h.names, h.keeps.trans (Schedule.keeps_dropExecution _ _), ?_⟩
  have hw := h.waiting.filter fun g => g.1 ≠ x
  rw [List.filter_append, hdropped, List.append_nil] at hw
  exact (List.Perm.of_eq (Schedule.waiting_dropExecution _ x)).trans hw

theorem tasksOf_front {front : List Action} {last : Action} (hlast : last.ends = true) :
    tasksOf (front ++ [last]) = tasksOf front := by
  cases last with
  | enqueue | adjustTimeout => cases hlast
  | finish | fail => exact (Execution.tasksOf_append front _).trans (List.append_nil _)

/-- An execution takes a call and its actions are carried out. -/
theorem follow_agrees {call : Call} (now : Nat)
    (h : Agrees ((e.overBy call).map (Prod.mk x) ++ hand) c)
    (he : c.executions.find? x = some e) :
    Agrees hand (c.follow now (e.respond call)).coordinator ∧
    Stays c (c.follow now (e.respond call)).coordinator := by
  obtain ⟨hname, hsound⟩ := h.sound x e he
  have ha := Execution.respond_accounts hsound call
  have hname' := ha.terms.name.trans hname
  have hkeys := OrderedMap.keys_insert_of_mem (e.respond call).1
    (OrderedMap.mem_keys_iff.2 ⟨e, he⟩)
  have hfind := fun y => OrderedMap.find?_insert c.executions x y (e.respond call).1
  simp only [follow, hname']
  let c₁ := { c with executions := c.executions.insert x (e.respond call).1 }
  cases ht : e.isTerminal with
  | true =>
    -- no call is answered any more, so the execution is put back as it was
    have hsame := Execution.respond_terminal ht call
    rw [Execution.overBy_terminal ht] at h
    simp only [hsame, turns] at *
    refine ⟨h.congr (fun y => ?_) h.keyed (fun _ hg => hg) (.refl _), rfl, rfl, hkeys⟩
    rw [hfind]
    split
    · rename_i hy
      rw [← hy, he]
    · rfl
  | false =>
    rcases Execution.announces_respond ht call with ⟨ht', hall⟩ | ⟨ht', front, last, hend⟩
    · have henact := enacted_turns x now c₁ hall
      refine ⟨agrees_running h he ht ha (fun y => ?_) ht' henact.keeps henact.waiting,
        henact.names, henact.keeps.tickets, ?_⟩
      · rw [henact.executions]
        exact hfind y
      · rw [henact.executions]
        exact hkeys
    · have htags : ∀ t ∈ tasksOf front, t.execution = x := by
        intro t ht
        rw [hend.1, tasksOf_front hend.2.1] at ha
        exact (ha.owner t ht).1.trans hname
      have henact := enacted_end now c₁ hend.2.2 hend.2.1 htags
      rw [hend.1]
      refine ⟨agrees_over h he ha (fun y => ?_) ht' henact.2.2.1 henact.2.2.2, henact.2.1,
        henact.2.2.1.tickets, ?_⟩
      · rw [henact.1]
        exact hfind y
      · rw [henact.1]
        exact hkeys

end Follow

/-! ## News for an execution -/

theorem Agrees.same {hand : List Tag} {c c' : Coordinator} (h : Agrees hand c)
    (hs : c'.schedule = c.schedule) (hx : c'.executions = c.executions) : Agrees hand c' :=
  h.congr (fun _ => by rw [hx]) (hs ▸ h.keyed) (fun _ hg => hs ▸ hg) (by simp [scheduled, hs])

/-- An execution is told about a task that has left the schedule. -/
theorem inform_agrees {c : Coordinator} {x : ExecutionName} {n : TaskName} {hand : List Tag}
    {report : Execution → Execution.Context → Execution × List Action}
    (call : Execution.Context → Call) (hreport : ∀ e ctx, report e ctx = e.respond (call ctx))
    (hover : ∀ (e : Execution) ctx, e.isTerminal = false → n ∈ e.outstanding →
      e.overBy (call ctx) = [n])
    (h : Agrees ((x, n) :: hand) c) (now : Nat) (session : SessionName) :
    Agrees hand (c.inform now x session report).coordinator ∧
    Stays c (c.inform now x session report).coordinator := by
  have hmem : (x, n) ∈ c.scheduled ++ (x, n) :: hand :=
    List.mem_append_right _ List.mem_cons_self
  obtain ⟨e, he, _⟩ := h.known x n hmem
  simp only [inform, he, hreport]
  refine follow_agrees now ?_ he
  cases ht : e.isTerminal with
  | true =>
    rw [Execution.overBy_terminal ht]
    exact h.drop he ht
  | false =>
    rw [hover e _ ht ((h.agree x e he ht n).2 hmem)]
    exact h

theorem failTask_agrees {c : Coordinator} {t : Task} {hand : List Tag} (now : Nat)
    (reason : String) (h : Agrees (t.tag :: hand) c) :
    Agrees hand (failTask now reason c t).coordinator ∧
    Stays c (failTask now reason c t).coordinator :=
  inform_agrees (fun ctx => .fail t.name reason ctx) (fun _ _ => rfl)
    (fun e ctx ht hn => by simp [Execution.overBy, ht, hn]) h now t.session

/-- Tasks are lost one after the other; the first may end an execution that others are of. -/
theorem failTasks_agrees {c : Coordinator} {ts : List Task} {hand : List Tag} (now : Nat)
    (reason : String) (h : Agrees (ts.map Task.tag ++ hand) c) :
    Agrees hand (turns (failTask now reason) ts c).coordinator ∧
    Stays c (turns (failTask now reason) ts c).coordinator := by
  induction ts generalizing c with
  | nil => exact ⟨h, .refl c⟩
  | cons t ts ih =>
    -- the tasks still to be failed stay in hand, whatever the first failure brings about
    obtain ⟨h', hstays⟩ := failTask_agrees now reason h
    obtain ⟨h'', hstays'⟩ := ih h'
    exact ⟨h'', hstays.trans hstays'⟩

theorem syncWorkers_agrees {c : Coordinator} (h : Agrees [] c) (now : Nat) :
    Agrees [] (c.syncWorkers now).coordinator ∧ Stays c (c.syncWorkers now).coordinator := by
  have hf := Schedule.frees_syncWorkers c.schedule c.fleet.live
  have hagrees := h.frees hf
  have hout : (c.schedule.syncWorkers c.fleet.live).2.map (fun a => a.task.tag) =
      ((c.schedule.syncWorkers c.fleet.live).2.map Assignment.task).map Task.tag := by simp
  rw [hout] at hagrees
  obtain ⟨h', hstays⟩ := failTasks_agrees now "worker lost" hagrees
  exact ⟨h', (stays_frees hf).trans hstays⟩

end Coordinator
end RenderFarm
