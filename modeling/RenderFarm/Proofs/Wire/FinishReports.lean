import RenderFarm.Coordinator.Server
import RenderFarm.Proofs.Json.Acceptance

/-!
# RenderFarm.Proofs.Wire.FinishReports

Which objects the coordinator takes for a finish report, and the event that each of them is.

* `NamesVariant`, `TaskGiven`, `Parts`, `Reports`: the grammar of the report.
* `taskReference_eq_ok`: a task is given by its name, or by an object with its name.
* `recordFields_finish`: what the keys of an object leave in the accumulator.
* `decode_finish_eq_ok`, `ofCall_iff_reports`: the decoder accepts just what the grammar says.
* `finish_report_grammar`: the two ways to give the task lead to the same event, and a refused
  report leads to none.
-/

namespace RenderFarm
namespace Wire

open Json (Decoder Draft Place)
open Json.Decoder

variable {fields fields' : List (String × Json)}

/-! ## The grammar -/

/-- A variant by its name, or by an object with the name as its only key and null as its value. -/
def NamesVariant (name : String) (j : Json) : Prop := j = .str name ∨ j = .obj [(name, .null)]

/-- A task by its name, or by an object with the name among its fields. -/
def NamesTask (t : TaskName) (j : Json) : Prop :=
  j = .str t.text ∨ ∃ fields, j = .obj fields ∧ Fields.find? "name" fields = some (.str t.text)

/-- One of the two keys gives the task, and the other is not there. -/
inductive TaskGiven (fields : List (String × Json)) (t : TaskName) : Prop
  | byName {j : Json} (given : Fields.find? "taskName" fields = some j) (names : NamesTask t j)
      (alone : Fields.find? "task" fields = none)
  | byTask {j : Json} (given : Fields.find? "task" fields = some j) (names : NamesTask t j)
      (alone : Fields.find? "taskName" fields = none)

/-- A number of 64 bits. -/
def IsWord (n : Nat) (j : Json) : Prop := j = .int n ∧ n < Word.size

/-- An array of the names. -/
def ListsSessions (names : List SessionName) (j : Json) : Prop := j = namesJson names

/-- What a finish report has besides its type. -/
structure Parts (fields : List (String × Json)) (worker : WorkerName) (task : TaskName)
    (elapsed : Nat) (weight : Option Nat) (cached : Option (List SessionName)) : Prop where
  worker : Fields.find? "workerName" fields = some (.str worker.text)
  task : TaskGiven fields task
  elapsed : ∃ j, Fields.find? "elapsedTime" fields = some j ∧ IsWord elapsed j
  weight : Optionally IsWord (Fields.find? "weight" fields) weight
  cached : Optionally ListsSessions (Fields.find? "cachedSessionNames" fields) cached

/-- The type of a finish report. -/
def OfType (fields : List (String × Json)) (name : String) : Prop :=
  ∃ j, Fields.find? "type" fields = some j ∧ NamesVariant name j

/-- The event that a finish report is: its type tells which, and only that of a task has a
weight. -/
inductive Reports (fields : List (String × Json)) : Event → Prop
  | task {worker : WorkerName} {task : TaskName} {elapsed : Nat} {weight : Option Nat}
      {cached : Option (List SessionName)} (type : OfType fields "TASK")
      (parts : Parts fields worker task elapsed weight cached) :
      Reports fields (.taskFinished worker task elapsed weight cached)
  | fetching {worker : WorkerName} {task : TaskName} {elapsed : Nat} {weight : Option Nat}
      {cached : Option (List SessionName)} (type : OfType fields "FETCHING")
      (parts : Parts fields worker task elapsed weight cached) :
      Reports fields (.fetchingFinished worker task elapsed cached)

/-! ## The parts of a report -/

variable {p : Place} {j : Json}

theorem finishKind_eq_ok {k : FinishKind} :
    finishKind ⟨.value, none⟩ (.ofJson j) = .ok k ↔ NamesVariant k.text j := by
  rw [finishKind, variant_eq_ok]
  constructor
  · rintro ⟨name, found, names⟩
    have hname : name = k.text := by
      rcases List.mem_cons.1 (List.mem_of_find?_eq_some found) with h | h
      · cases h
        rfl
      · cases List.mem_singleton.1 h
        rfl
    exact hname ▸ names
  · intro h
    refine ⟨k.text, ?_, h⟩
    cases k <;> decide

theorem workerName_eq_ok {w : WorkerName} :
    workerName p (.ofJson j) = .ok w ↔ j = .str w.text :=
  wrapped_eq_ok (fun _ => rfl) fun _ => rfl

theorem sessionName_eq_ok {s : SessionName} :
    sessionName p (.ofJson j) = .ok s ↔ j = .str s.text :=
  wrapped_eq_ok (fun _ => rfl) fun _ => rfl

theorem u64_eq_ok {n : Nat} : u64 p (.ofJson j) = .ok n ↔ IsWord n j := natural_eq_ok

theorem sessionNames_eq_ok {names : List SessionName} :
    list sessionName ⟨.value, none⟩ (.ofJson j) = .ok names ↔ ListsSessions names j :=
  list_eq_ok fun _ _ => sessionName_eq_ok

/-- Once the name is found, it must not come again. -/
theorem nameOf_found {s : String} (h : Fields.find? "name" fields = none) :
    nameOf (Draft.ofFields fields) (some s) = some s := by
  induction fields with
  | nil => rfl
  | cons f fs ih =>
    obtain ⟨k, j⟩ := f
    by_cases hk : k = "name"
    · simp [Fields.find?, hk] at h
    · rw [Fields.find?_cons_ne hk] at h
      simp [Draft.ofFields, nameOf, hk, ih h]

theorem nameOf_eq_some (h : Fields.Ascending fields) {s : String} :
    nameOf (Draft.ofFields fields) none = some s ↔ Fields.find? "name" fields = some (.str s) := by
  induction fields with
  | nil => simp [nameOf, Draft.ofFields, Fields.find?]
  | cons f fs ih =>
    obtain ⟨k, j⟩ := f
    by_cases hk : k = "name"
    · subst hk
      have once : Fields.find? "name" fs = none := Fields.find?_tail h (.inr rfl)
      rw [Fields.find?_cons_self]
      cases j <;> simp [Draft.ofFields, Draft.ofJson, nameOf, nameOf_found once]
    · rw [Fields.find?_cons_ne hk, ← ih (List.pairwise_cons.1 h).2]
      simp [Draft.ofFields, nameOf, hk]

theorem taskName_eq_iff {s : String} {t : TaskName} : (⟨s⟩ : TaskName) = t ↔ s = t.text :=
  ⟨congrArg TaskName.text, congrArg TaskName.mk⟩

theorem taskReference_eq_ok (h : j.InOrder) {t : TaskName} :
    taskReference ⟨.value, none⟩ (.ofJson j) = .ok t ↔ NamesTask t j := by
  simp only [taskReference, Draft.toJson?_ofJson h, NamesTask]
  cases j with
  | str s =>
    simp only [Draft.ofJson, Except.ok.injEq, taskName_eq_iff, Json.str.injEq, reduceCtorEq,
      false_and, exists_false, or_false]
  | obj fields =>
    simp only [Draft.ofJson, reduceCtorEq, false_or, Json.obj.injEq, exists_eq_left']
    rw [← nameOf_eq_some h.1]
    cases nameOf (Draft.ofFields fields) none with
    | none => simp [misfit]
    | some s => simp only [Except.ok.injEq, taskName_eq_iff, Option.some.injEq]
  | _ => simp [Draft.ofJson, misfit]

/-! ## The report -/

/-- The keys of a report in ascending order. -/
def finishKeys : List String :=
  ["cachedSessionNames", "elapsedTime", "task", "taskName", "type", "weight", "workerName"]

theorem finishKeys_sorted : finishKeys.Pairwise (· < ·) := by decide +kernel

theorem finishKeys_known {k : String} {s : Slot FinishFields}
    (h : Finish.slots.find? (fun s => s.answers k) = some s) : k ∈ finishKeys := by
  have all : ∀ k ∈ Finish.slots.flatMap (fun s => s.label :: s.aliases), k ∈ finishKeys := by decide
  have hk := List.find?_some h
  simp only [Slot.answers, Bool.or_eq_true, beq_iff_eq, List.contains_iff_mem] at hk
  exact all k (List.mem_flatMap.2 ⟨s, List.mem_of_find?_eq_some h, List.mem_cons.2 hk⟩)

/-- What is left in its place of the accumulator by a key of an object. -/
abbrev TakenAt {α : Type} (fields : List (String × Json)) (key : String) (d : Decoder α)
    (o : Option α) : Prop :=
  Taken d ⟨.value, none⟩ (Fields.find? key fields) o

/-- The two keys of the task share one place. -/
inductive TaskTaken (fields : List (String × Json)) : Option TaskName → Prop
  | byName {t? : Option TaskName} (alone : Fields.find? "task" fields = none)
      (taken : TakenAt fields "taskName" taskReference t?) : TaskTaken fields t?
  | byTask {t : TaskName} (taken : TakenAt fields "task" taskReference (some t))
      (alone : Fields.find? "taskName" fields = none) : TaskTaken fields (some t)

theorem takeFields_task {keys : List String} {st : FinishFields} (elapsed : Option Nat)
    (cached : Option (Option (List SessionName))) :
    takeFields Finish.slots ⟨.value, none⟩ fields ("task" :: "taskName" :: keys)
        { elapsed, cached } = .ok st ↔
      ∃ task, TaskTaken fields task ∧
        takeFields Finish.slots ⟨.value, none⟩ fields keys { task, elapsed, cached } = .ok st := by
  -- the place of the task is empty when the first of its keys comes
  have first : takeFields Finish.slots ⟨.value, none⟩ fields ("task" :: "taskName" :: keys)
      { elapsed, cached } = .ok st ↔ _ :=
    takeFields_cons_eq_ok rfl rfl rfl (fun task => ({ task, elapsed, cached } : FinishFields)) rfl
      fun _ => rfl
  have second : takeFields Finish.slots ⟨.value, none⟩ fields ("taskName" :: keys)
      { elapsed, cached } = .ok st ↔ _ :=
    takeFields_cons_eq_ok rfl rfl rfl (fun task => ({ task, elapsed, cached } : FinishFields)) rfl
      fun _ => rfl
  have filled {t : TaskName} : takeFields Finish.slots ⟨.value, none⟩ fields ("taskName" :: keys)
      { task := some t, elapsed, cached } = .ok st ↔ _ := takeFields_cons_filled rfl rfl
  rw [first]
  constructor
  · rintro ⟨t?, taken, rest⟩
    cases t? with
    | none =>
      obtain ⟨task, named, rest⟩ := second.1 rest
      exact ⟨task, .byName (taken_none.1 taken) named, rest⟩
    | some t =>
      obtain ⟨alone, rest⟩ := filled.1 rest
      exact ⟨some t, .byTask taken alone, rest⟩
  · rintro ⟨task, ⟨alone, taken⟩ | ⟨taken, alone⟩, rest⟩
    · exact ⟨none, taken_none.2 alone, second.2 ⟨task, taken, rest⟩⟩
    · exact ⟨some _, taken, filled.2 ⟨alone, rest⟩⟩

/-- What the keys of an object leave in the accumulator. -/
structure Collected (fields : List (String × Json)) (st : FinishFields) : Prop where
  kind : TakenAt fields "type" finishKind st.kind
  worker : TakenAt fields "workerName" workerName st.worker
  task : TaskTaken fields st.task
  elapsed : TakenAt fields "elapsedTime" u64 st.elapsed
  weight : TakenAt fields "weight" (option u64) st.weight
  cached : TakenAt fields "cachedSessionNames" (option (list sessionName)) st.cached

theorem recordFields_finish (h : Fields.Ascending fields) {st : FinishFields} :
    recordFields Finish.slots ⟨.value, none⟩ (Draft.ofFields fields) {} = .ok st ↔
      Collected fields st := by
  rw [recordFields_eq_takeFields finishKeys_sorted (fun _ _ => finishKeys_known) h, finishKeys]
  calc
    _ ↔ ∃ cached, TakenAt fields "cachedSessionNames" (option (list sessionName)) cached ∧
        ∃ elapsed, TakenAt fields "elapsedTime" u64 elapsed ∧
        ∃ task, TaskTaken fields task ∧
        ∃ kind, TakenAt fields "type" finishKind kind ∧
        ∃ weight, TakenAt fields "weight" (option u64) weight ∧
        ∃ worker, TakenAt fields "workerName" workerName worker ∧
          (⟨kind, worker, task, elapsed, weight, cached⟩ : FinishFields) = st := by
      refine (takeFields_cons_eq_ok rfl rfl rfl (fun cached => ({ cached } : FinishFields)) rfl
        fun _ => rfl).trans (exists_congr fun cached => and_congr_right fun _ => ?_)
      refine (takeFields_cons_eq_ok rfl rfl rfl
        (fun elapsed => ({ elapsed, cached } : FinishFields)) rfl
        fun _ => rfl).trans (exists_congr fun elapsed => and_congr_right fun _ => ?_)
      refine (takeFields_task elapsed cached).trans
        (exists_congr fun task => and_congr_right fun _ => ?_)
      refine (takeFields_cons_eq_ok rfl rfl rfl
        (fun kind => ({ kind, task, elapsed, cached } : FinishFields)) rfl
        fun _ => rfl).trans (exists_congr fun kind => and_congr_right fun _ => ?_)
      refine (takeFields_cons_eq_ok rfl rfl rfl
        (fun weight => ({ kind, task, elapsed, weight, cached } : FinishFields)) rfl
        fun _ => rfl).trans (exists_congr fun weight => and_congr_right fun _ => ?_)
      refine (takeFields_cons_eq_ok rfl rfl rfl
        (fun worker => (⟨kind, worker, task, elapsed, weight, cached⟩ : FinishFields)) rfl
        fun _ => rfl).trans (exists_congr fun worker => and_congr_right fun _ => ?_)
      rw [takeFields, Except.ok.injEq]
    _ ↔ Collected fields st := by
      constructor
      · rintro ⟨cached, hcached, elapsed, helapsed, task, htask, kind, hkind, weight, hweight,
          worker, hworker, rfl⟩
        exact ⟨hkind, hworker, htask, helapsed, hweight, hcached⟩
      · intro h
        exact ⟨_, h.cached, _, h.elapsed, _, h.task, _, h.kind, _, h.weight, _, h.worker, rfl⟩

theorem taskTaken_some (h : (Json.obj fields).InOrder) {t : TaskName} :
    TaskTaken fields (some t) ↔ TaskGiven fields t := by
  have reads (key : String) (j : Json) (hj : Fields.find? key fields = some j) (t : TaskName) :
      taskReference ⟨.value, none⟩ (.ofJson j) = .ok t ↔ NamesTask t j :=
    taskReference_eq_ok (Json.fieldsInOrder_iff.1 h.2 _ (Fields.mem_of_find? hj))
  constructor
  · rintro (⟨alone, taken⟩ | ⟨taken, alone⟩)
    · obtain ⟨j, given, names⟩ := (taken_some (reads "taskName")).1 taken
      exact .byName given names alone
    · obtain ⟨j, given, names⟩ := (taken_some (reads "task")).1 taken
      exact .byTask given names alone
  · rintro (⟨given, names, alone⟩ | ⟨given, names, alone⟩)
    · exact .byName alone ((taken_some (reads "taskName")).2 ⟨_, given, names⟩)
    · exact .byTask ((taken_some (reads "task")).2 ⟨_, given, names⟩) alone

/-- The decoder accepts an object just where it has a type and the other parts of a report. -/
theorem decode_finish_eq_ok (h : (Json.obj fields).InOrder) {f : Finish} :
    Json.decode Finish.decoder (.obj fields) = .ok f ↔
      OfType fields f.kind.text ∧
        Parts fields f.worker f.task f.elapsed f.weight f.cached := by
  have type {k : FinishKind} : TakenAt fields "type" finishKind (some k) ↔ OfType fields k.text :=
    taken_some fun _ _ _ => finishKind_eq_ok
  have worker {w : WorkerName} : TakenAt fields "workerName" workerName (some w) ↔
      Fields.find? "workerName" fields = some (.str w.text) :=
    (taken_some fun _ _ _ => workerName_eq_ok).trans (by simp)
  have elapsed {n : Nat} : TakenAt fields "elapsedTime" u64 (some n) ↔
      ∃ j, Fields.find? "elapsedTime" fields = some j ∧ IsWord n j :=
    taken_some fun _ _ _ => u64_eq_ok
  have weight {o : Option Nat} : (∃ o', TakenAt fields "weight" (option u64) o' ∧
      o'.getD none = o) ↔ Optionally IsWord (Fields.find? "weight" fields) o :=
    taken_option (fun _ _ => u64_eq_ok) fun _ h => Json.noConfusion h.1
  have cached {o : Option (List SessionName)} :
      (∃ o', TakenAt fields "cachedSessionNames" (option (list sessionName)) o' ∧
        o'.getD none = o) ↔
      Optionally ListsSessions (Fields.find? "cachedSessionNames" fields) o :=
    taken_option (fun _ _ => sessionNames_eq_ok) fun _ h => Json.noConfusion h
  rw [Json.decode, Finish.decoder, record_eq_ok]
  simp only [recordFields_finish h.1]
  constructor
  · rintro ⟨⟨kind?, worker?, task?, elapsed?, weight?, cached?⟩, c, built⟩
    simp only at built
    split at built
    · cases built
      exact ⟨type.1 c.kind, worker.1 c.worker, (taskTaken_some h).1 c.task, elapsed.1 c.elapsed,
        weight.1 ⟨weight?, c.weight, rfl⟩, cached.1 ⟨cached?, c.cached, rfl⟩⟩
    · cases built
  · rintro ⟨hkind, parts⟩
    obtain ⟨weight?, hweight, weight_eq⟩ := weight.2 parts.weight
    obtain ⟨cached?, hcached, cached_eq⟩ := cached.2 parts.cached
    refine ⟨⟨some f.kind, some f.worker, some f.task, some f.elapsed, weight?, cached?⟩,
      ⟨type.2 hkind, worker.2 parts.worker, (taskTaken_some h).2 parts.task,
        elapsed.2 parts.elapsed, hweight, hcached⟩, ?_⟩
    simp only [weight_eq, cached_eq]

/-! ## The event -/

theorem ofCall_finish_eq_ok {params : Json} {e : Event} :
    Event.ofCall finishMethod params = .ok e ↔
      ∃ f, Json.decode Finish.decoder params = .ok f ∧ Event.ofFinish f = e := by
  have hpong : finishMethod ≠ pongMethod := by decide
  simp only [Event.ofCall, hpong, if_false, if_true]
  cases Json.decode Finish.decoder params <;> simp

theorem reports_iff {e : Event} :
    Reports fields e ↔ ∃ f : Finish, (OfType fields f.kind.text ∧
      Parts fields f.worker f.task f.elapsed f.weight f.cached) ∧ Event.ofFinish f = e := by
  constructor
  · rintro (⟨type, parts⟩ | ⟨type, parts⟩)
    · exact ⟨⟨.task, _, _, _, _, _⟩, ⟨type, parts⟩, rfl⟩
    · exact ⟨⟨.fetching, _, _, _, _, _⟩, ⟨type, parts⟩, rfl⟩
  · rintro ⟨⟨kind, worker, task, elapsed, weight, cached⟩, ⟨type, parts⟩, rfl⟩
    cases kind with
    | task => exact .task type parts
    | fetching => exact .fetching type parts

theorem ofCall_iff_reports (h : (Json.obj fields).InOrder) {e : Event} :
    Event.ofCall finishMethod (.obj fields) = .ok e ↔ Reports fields e := by
  simp only [ofCall_finish_eq_ok, decode_finish_eq_ok h, reports_iff]

/-- A report that the coordinator takes becomes an event, and nothing else does. -/
theorem answer_finish_eq_some (h : (Json.obj fields).InOrder) {running : Bool} {id : Nat}
    {e : Event} :
    (Server.answer running ⟨id, finishMethod, .obj fields⟩).2 = some e ↔
      running = true ∧ Reports fields e := by
  rw [← ofCall_iff_reports h, Server.answer, Server.accept]
  cases Event.ofCall finishMethod (.obj fields) <;> cases running <;> simp

/-! ## The two ways to give the task -/

theorem NamesTask.unique {t t' : TaskName} (h : NamesTask t j) (h' : NamesTask t' j) : t = t' := by
  have texts : t.text = t'.text := by
    rcases h with rfl | ⟨fields, rfl, found⟩
    · rcases h' with e | ⟨_, e, _⟩
      · exact Json.str.inj e
      · cases e
    · rcases h' with e | ⟨fields', e, found'⟩
      · cases e
      · cases e
        exact Json.str.inj (Option.some.inj (found.symm.trans found'))
  exact taskName_eq_iff.2 texts

theorem TaskGiven.unique {t t' : TaskName} (h : TaskGiven fields t) (h' : TaskGiven fields t') :
    t = t' := by
  rcases h with ⟨given, names, alone⟩ | ⟨given, names, alone⟩ <;>
    rcases h' with ⟨given', names', alone'⟩ | ⟨given', names', alone'⟩
  · cases given.symm.trans given'
    exact names.unique names'
  · cases alone.symm.trans given'
  · cases alone.symm.trans given'
  · cases given.symm.trans given'
    exact names.unique names'

/-- The keys of a report besides those of the task. -/
def otherKeys : List String := ["type", "workerName", "elapsedTime", "weight", "cachedSessionNames"]

theorem Reports.congr (same : ∀ k ∈ otherKeys, Fields.find? k fields = Fields.find? k fields')
    {t : TaskName} (given : TaskGiven fields t) (given' : TaskGiven fields' t) {e : Event}
    (h : Reports fields e) : Reports fields' e := by
  have ofType {name : String} (type : OfType fields name) : OfType fields' name := by
    rwa [OfType, ← same "type" (by decide)]
  have carried {worker : WorkerName} {task : TaskName} {elapsed : Nat} {weight : Option Nat}
      {cached : Option (List SessionName)} (parts : Parts fields worker task elapsed weight cached) :
      Parts fields' worker task elapsed weight cached :=
    { worker := same "workerName" (by decide) ▸ parts.worker
      task := parts.task.unique given ▸ given'
      elapsed := same "elapsedTime" (by decide) ▸ parts.elapsed
      weight := same "weight" (by decide) ▸ parts.weight
      cached := same "cachedSessionNames" (by decide) ▸ parts.cached }
  cases h with
  | task type parts => exact .task (ofType type) (carried parts)
  | fetching type parts => exact .fetching (ofType type) (carried parts)

/-- An object is taken for a finish report just where it follows the grammar, and it is the event
that the grammar says; only then does the coordinator hear of it. Whichever of the two keys gives
the task, and in whichever form, the event is the same. -/
theorem finish_report_grammar (h : (Json.obj fields).InOrder) :
    (∀ e, Event.ofCall finishMethod (.obj fields) = .ok e ↔ Reports fields e) ∧
      (∀ running id e, (Server.answer running ⟨id, finishMethod, .obj fields⟩).2 = some e ↔
        running = true ∧ Reports fields e) ∧
      ∀ fields' t, (Json.obj fields').InOrder →
        (∀ k ∈ otherKeys, Fields.find? k fields = Fields.find? k fields') →
        TaskGiven fields t → TaskGiven fields' t →
        ∀ e, Event.ofCall finishMethod (.obj fields) = .ok e ↔
          Event.ofCall finishMethod (.obj fields') = .ok e := by
  refine ⟨fun e => ofCall_iff_reports h, fun running id e => answer_finish_eq_some h, ?_⟩
  intro fields' t h' same given given' e
  rw [ofCall_iff_reports h, ofCall_iff_reports h']
  exact ⟨Reports.congr same given given', Reports.congr (fun k hk => (same k hk).symm) given' given⟩

/-- A report that gives its task as an object. -/
def reportByTask : List (String × Json) :=
  [("cachedSessionNames", .arr [.str "session1"]), ("elapsedTime", .int 800),
    ("task", .obj [("executionName", .str "execution1"), ("name", .str "execution1-task2"),
      ("type", .str "PRODUCING")]),
    ("type", .str "TASK"), ("weight", .int 4), ("workerName", .str "worker-a")]

/-- The same report with the name of its task. -/
def reportByName : List (String × Json) :=
  [("cachedSessionNames", .arr [.str "session1"]), ("elapsedTime", .int 800),
    ("taskName", .str "execution1-task2"), ("type", .str "TASK"), ("weight", .int 4),
    ("workerName", .str "worker-a")]

theorem finish_report_grammar_sample :
    (Json.obj reportByTask).InOrder ∧ (Json.obj reportByName).InOrder ∧
      (Server.answer true ⟨1, finishMethod, .obj reportByTask⟩).2 =
        some (.taskFinished ⟨"worker-a"⟩ ⟨"execution1-task2"⟩ 800 (some 4) (some [⟨"session1"⟩])) ∧
      Event.ofCall finishMethod (.obj reportByName) =
        .ok (.taskFinished ⟨"worker-a"⟩ ⟨"execution1-task2"⟩ 800 (some 4)
          (some [⟨"session1"⟩])) := by
  have keys : (reportByTask.map Prod.fst).Pairwise (· < ·) := by decide +kernel
  have keys' : (reportByName.map Prod.fst).Pairwise (· < ·) := by decide +kernel
  have taskKeys : ["executionName", "name", "type"].Pairwise (· < ·) := by decide +kernel
  have inOrder : (Json.obj reportByTask).InOrder :=
    ⟨List.pairwise_map.1 keys, ⟨trivial, trivial⟩, trivial,
      ⟨List.pairwise_map.1 taskKeys, trivial, trivial, trivial, trivial⟩, trivial, trivial, trivial,
      trivial⟩
  have inOrder' : (Json.obj reportByName).InOrder :=
    ⟨List.pairwise_map.1 keys', ⟨trivial, trivial⟩, trivial, trivial, trivial, trivial, trivial,
      trivial⟩
  have others : ∀ k ∈ otherKeys,
      Fields.find? k reportByTask = Fields.find? k reportByName := by
    simp [otherKeys, reportByTask, reportByName, Fields.find?]
  have given : TaskGiven reportByTask ⟨"execution1-task2"⟩ := .byTask rfl (.inr ⟨_, rfl, rfl⟩) rfl
  have given' : TaskGiven reportByName ⟨"execution1-task2"⟩ := .byName rfl (.inl rfl) rfl
  have reports : Reports reportByTask
      (.taskFinished ⟨"worker-a"⟩ ⟨"execution1-task2"⟩ 800 (some 4) (some [⟨"session1"⟩])) :=
    .task ⟨_, rfl, .inl rfl⟩
      ⟨rfl, given, ⟨_, rfl, rfl, by decide⟩, .given ⟨rfl, by decide⟩, .given rfl⟩
  obtain ⟨taken, enqueued, same⟩ := finish_report_grammar inOrder
  exact ⟨inOrder, inOrder', (enqueued true 1 _).2 ⟨rfl, reports⟩,
    (same _ _ inOrder' others given given' _).1 ((taken _).2 reports)⟩

end Wire
end RenderFarm
