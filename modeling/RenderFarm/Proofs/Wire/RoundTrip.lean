import RenderFarm.Proofs.Json.Decoding
import RenderFarm.Wire.Decode

/-!
# RenderFarm.Proofs.Wire.RoundTrip

What one side of the farm writes, the other side reads as it was meant.

* `Fits`: the numbers of a message have the width they are read with, and the values it carries
  are in order.
* `reads_ping`, `reads_finish`, `reads_task` and so on: each message is decoded from its value.
* `task_fields`: which fields a task message has.
* `reads_response`, `outcome_present?`: a response is decoded to one with the same outcome.
* `messages_roundTrip`: all messages together.
-/

namespace RenderFarm
namespace Wire

open Json (Draft Origin)
open Json.Decoder

/-! ## Numbers and names -/

theorem reads_u16 {n : Nat} (h : n < Word.size16) : Reads u16 (natJson n) n := reads_natural _ h

theorem reads_u64 {n : Nat} (h : n < Word.size) : Reads u64 (natJson n) n := reads_natural _ h

theorem reads_workerName (w : WorkerName) : Reads workerName (.str w.text) w :=
  (reads_string w.text).map _

theorem reads_sessionName (s : SessionName) : Reads sessionName (.str s.text) s :=
  (reads_string s.text).map _

theorem reads_executionName (e : ExecutionName) : Reads executionName (.str e.text) e :=
  (reads_string e.text).map _

theorem reads_taskName (t : TaskName) : Reads taskName (.str t.text) t :=
  (reads_string t.text).map _

theorem reads_names (names : List SessionName) : Reads (list sessionName) (namesJson names) names :=
  reads_list fun s _ => reads_sessionName s

/-- An absent value is written as null. -/
theorem reads_optionJson {α : Type} {d : Json.Decoder α} {f : α → Json} {o : Option α}
    (h : ∀ a ∈ o, Reads d (f a) a) (hf : ∀ a, f a ≠ .null) :
    Reads (option d) (optionJson f o) o := by
  cases o with
  | none => exact reads_null d
  | some a => exact (h a rfl).option (hf a)

theorem reads_optionalSlot {α σ : Type} {label : String} {present : σ → Bool}
    {d : Json.Decoder α} {set : α → σ → σ} {j : Json} {a : α} {st : σ} (h : Reads d j a)
    (origin : Origin) :
    (optional (.of label present d set)).read ⟨origin, none⟩ (.ofJson j) st = .ok (set a st) :=
  (h.slot origin : (Slot.of label present d set).read _ _ _ = _)

/-! ## Addresses -/

/-- Ports are numbers of 16 bits. -/
def CoordinatorAddress.Fits (a : CoordinatorAddress) : Prop := a.port < Word.size16

theorem reads_coordinator {a : CoordinatorAddress} (h : a.Fits) :
    Reads CoordinatorAddress.decoder a.toJson a :=
  reads_record
    (.cons rfl rfl (reads_string _).slot <| .cons rfl rfl (reads_u16 h).slot <| .nil _) rfl

def AddressFits (a : WorkerAddress) : Prop :=
  a.port < Word.size16 ∧ a.resourcePort < Word.size16

theorem reads_address {a : WorkerAddress} (h : AddressFits a) :
    Reads addressDecoder (addressJson a) a :=
  reads_record
    (.cons rfl rfl (reads_string _).slot <| .cons rfl rfl (reads_u16 h.1).slot <|
      .cons rfl rfl (reads_u16 h.2).slot <| .nil _) rfl

/-! ## Messages without parts that may be absent -/

def Ping.Fits (p : Ping) : Prop := p.coordinator.Fits

theorem reads_ping {p : Ping} (h : p.Fits) : Reads Ping.decoder p.toJson p :=
  reads_record
    (.cons rfl rfl (reads_coordinator h).slot <|
      .cons rfl rfl (reads_workerName p.worker).slot <| .nil _) rfl

theorem reads_deleteCache (d : DeleteCache) : Reads DeleteCache.decoder d.toJson d :=
  reads_record (.cons rfl rfl (reads_sessionName d.session).slot <| .nil _) rfl

theorem reads_logLine (l : LogLine) : Reads LogLine.decoder l.toJson l :=
  reads_record
    (.cons rfl rfl (reads_string _).slot <| .cons rfl rfl (reads_string _).slot <| .nil _) rfl

theorem reads_pong (p : Pong) : Reads Pong.decoder p.toJson p :=
  reads_record
    (.cons rfl rfl (reads_optionalSlot (reads_names p.cached)) <|
      .cons rfl rfl (reads_optionalSlot (reads_list fun l _ => reads_logLine l)) <|
      .cons rfl rfl (reads_workerName p.worker).slot <| .nil _) rfl

theorem reads_failed (f : Failed) : Reads Failed.decoder f.toJson f :=
  reads_record
    (.cons rfl rfl (reads_string _).slot <| .cons rfl rfl (reads_taskName f.task).slot <|
      .cons rfl rfl (reads_workerName f.worker).slot <| .nil _) rfl

/-! ## Finish reports -/

/-- Times and weights are words. -/
def Finish.Fits (f : Finish) : Prop := f.elapsed < Word.size ∧ ∀ n ∈ f.weight, n < Word.size

theorem reads_finishKind (k : FinishKind) : Reads finishKind (.str k.text) k := by
  cases k with
  | task => exact reads_variant rfl
  | fetching => exact reads_variant rfl

theorem reads_finish {f : Finish} (h : f.Fits) : Reads Finish.decoder f.toJson f :=
  have cached : Reads (option (list sessionName)) (optionJson namesJson f.cached) f.cached :=
    reads_optionJson (fun names _ => reads_names names) fun _ => Json.noConfusion
  have weight : Reads (option u64) (optionJson natJson f.weight) f.weight :=
    reads_optionJson (fun n hn => reads_u64 (h.2 n hn)) fun _ => Json.noConfusion
  -- The task is named by a string, which `taskReference` takes as it is.
  reads_record
    (.cons rfl rfl (reads_optionalSlot cached) <| .cons rfl rfl (reads_u64 h.1).slot <|
      .cons rfl rfl (fun _ => rfl) <|
      .cons rfl rfl (reads_finishKind f.kind).slot <| .cons rfl rfl (reads_optionalSlot weight) <|
      .cons rfl rfl (reads_workerName f.worker).slot <| .nil _) rfl

/-! ## Parts of a task -/

theorem reads_resource (r : Resource) : Reads Resource.decoder r.toJson r :=
  reads_record
    (.cons rfl rfl (reads_string _).slot <| .cons rfl rfl (reads_string _).slot <| .nil _) rfl

/-- The updates are any values, with their fields in order. -/
def SessionMessage.Fits (s : SessionMessage) : Prop := ∀ j ∈ s.updates, j.InOrder

theorem reads_updates {updates : List Json} (h : ∀ j ∈ updates, j.InOrder) :
    Reads (list json) (.arr updates) updates := by
  simpa using reads_list (f := id) fun j hj => reads_json (h j hj)

theorem reads_session {s : SessionMessage} (h : s.Fits) : Reads SessionMessage.decoder s.toJson s :=
  reads_record
    (.cons rfl rfl (reads_string _).slot <| .cons rfl rfl (reads_sessionName s.name).slot <|
      .cons rfl rfl (reads_string _).slot <|
      .cons rfl rfl (reads_list fun r _ => reads_resource r).slot <|
      .cons rfl rfl (reads_updates h).slot <| .nil _) rfl

def SourceMessage.Fits : SourceMessage → Prop
  | .external => True
  | .worker a => AddressFits a

theorem inOrder_address (a : WorkerAddress) : (addressJson a).InOrder :=
  have keys : ["host", "port", "resourcePort"].Pairwise (· < ·) := by decide +kernel
  ⟨List.pairwise_map.1 keys, trivial, trivial, trivial, trivial⟩

theorem reads_workerVariant {a : WorkerAddress} (h : AddressFits a) :
    Reads workerVariant (.obj [("worker", addressJson a)]) (.worker a) :=
  reads_record (.cons rfl rfl (reads_address h).slot <| .nil _) rfl

/-- The address in a source is set aside before it is read. -/
theorem reads_source {s : SourceMessage} (h : s.Fits) : Reads SourceMessage.decoder s.toJson s := by
  cases s with
  | external => exact fun _ => rfl
  | worker a =>
    intro origin
    have complete : (Draft.ofJson (addressJson a)).toJson? none = some (addressJson a) :=
      Draft.toJson?_ofJson (inOrder_address a)
    have tag : sourceTag ⟨origin, none⟩ (.str "WORKER") = .ok .worker := rfl
    have other : ¬ "worker" = "type" := by decide +kernel
    have content := reads_workerVariant h .buffered
    simp only [Draft.ofJson, Draft.ofFields] at content
    simp only [SourceMessage.toJson, SourceMessage.decoder, Draft.ofJson, Draft.ofFields, enter,
      Draft.deeper, splitTag, buffer, tag, other, complete, taggedSource, content, if_true,
      if_false]

def InputMessage.Fits (i : InputMessage) : Prop := i.weight < Word.size ∧ AddressFits i.worker

theorem reads_input {i : InputMessage} (h : i.Fits) : Reads InputMessage.decoder i.toJson i :=
  reads_record
    (.cons rfl rfl (reads_taskName i.task).slot <| .cons rfl rfl (reads_u64 h.1).slot <|
      .cons rfl rfl (reads_address h.2).slot <| .nil _) rfl

/-! ## Tasks -/

/-- The numbers of a task are words, and the values in it are in order. -/
structure TaskMessage.Fits (t : TaskMessage) : Prop where
  session : t.session.Fits
  seed : ∀ n ∈ t.seed, n < Word.size
  source : ∀ s ∈ t.source, s.Fits
  inputs : ∀ i ∈ t.inputs, i.Fits

/-- A field that is left out when absent. -/
theorem fills_optionField {α σ : Type} {slots : List (Slot σ)} {key : String}
    {present : σ → Bool} {d : Json.Decoder α} {set : Option α → σ → σ} {f : α → Json} {o : Option α}
    {st st' : σ}
    (named : slots.find? (fun s => s.answers key) =
      some (optional (.of key present (option d) set)))
    (fresh : present st = false) (h : ∀ a ∈ o, Reads d (f a) a) (hf : ∀ a, f a ≠ .null)
    (hst : st' = o.elim st fun a => set (some a) st) :
    Fills slots (optionField key f o) st st' := by
  subst hst
  cases o with
  | none => exact .nil st
  | some a => exact .cons named fresh (reads_optionalSlot ((h a rfl).option (hf a))) (.nil _)

theorem source_ne_null (s : SourceMessage) : s.toJson ≠ .null := by
  cases s <;> exact Json.noConfusion

theorem reads_taskKind (k : TaskKind) : Reads taskKind (.str (kindText k)) k := by
  cases k with
  | producing => exact reads_variant rfl
  | reducing => exact reads_variant rfl

theorem reads_task {t : TaskMessage} (h : t.Fits) : Reads TaskMessage.decoder t.toJson t := by
  obtain ⟨name, kind, execution, session, seed, source, inputs⟩ := t
  let given : Option (List InputMessage) := if inputs.isEmpty then none else some inputs
  let atInputs : TaskFields := ⟨none, none, execution, none, none, none, given⟩
  let atSeed : TaskFields := { atInputs with name, seed := seed.map some }
  let atSource : TaskFields := { atSeed with session, source := source.map some }
  have given_getD : given.getD [] = inputs := by cases inputs <;> rfl
  refine reads_record (.append (.append (.append (.append (.append (.append
    (.cons rfl rfl (reads_executionName execution).slot (.nil _)) (?inputs : Fills _ _ _ atInputs))
    (.cons rfl rfl (reads_taskName name).slot (.nil _))) (?seed : Fills _ _ _ atSeed))
    (.cons rfl rfl (reads_session h.session).slot (.nil _))) (?source : Fills _ _ _ atSource))
    (.cons rfl rfl (reads_taskKind kind).slot (.nil _))) ?built
  case inputs =>
    cases inputs with
    | nil => exact .nil _
    | cons i is =>
      exact .cons rfl rfl (reads_optionalSlot (reads_list fun i hi => reads_input (h.inputs i hi)))
        (.nil _)
  case seed =>
    exact fills_optionField rfl rfl (fun n hn => reads_u64 (h.seed n hn))
      (fun _ => Json.noConfusion) (by cases seed <;> rfl)
  case source =>
    exact fills_optionField rfl rfl (fun s hs => reads_source (h.source s hs)) source_ne_null
      (by cases source <;> rfl)
  case built =>
    simp only [atSource, atSeed, atInputs, given_getD]
    cases seed <;> cases source <;> rfl

/-- Which fields a task message has: those that may be absent only if they say something, and
none of them is null. -/
theorem task_fields (t : TaskMessage) : ∃ fields, t.toJson = .obj fields ∧
    ("seed" ∈ fields.map Prod.fst ↔ t.seed ≠ none) ∧
    ("source" ∈ fields.map Prod.fst ↔ t.source ≠ none) ∧
    ("inputs" ∈ fields.map Prod.fst ↔ t.inputs ≠ []) ∧ ∀ f ∈ fields, f.2 ≠ .null := by
  obtain ⟨name, kind, execution, session, seed, source, inputs⟩ := t
  refine ⟨_, rfl, ?_⟩
  cases seed <;> cases source <;> cases inputs <;>
    simp [optionField, natJson, SessionMessage.toJson, source_ne_null]

/-! ## Responses -/

structure Response.Fits (r : Response) : Prop where
  id : r.id < Word.size
  result : ∀ j ∈ r.result, j.InOrder

/-- The value, unless it is null. -/
def present? : Json → Option Json
  | .null => none
  | j => some j

theorem present?_getD (j : Json) : (present? j).getD .null = j := by cases j <;> rfl

theorem reads_present? {j : Json} (h : j.InOrder) : Reads (option json) j (present? j) := by
  cases j with
  | null => exact reads_null json
  | _ => exact (reads_json h).option Json.noConfusion

/-- A result of null is read as no result. -/
theorem reads_response {r : Response} (h : r.Fits) :
    Reads Response.decoder r.toJson { r with result := r.result.bind present? } := by
  obtain ⟨id, result, error⟩ := r
  let atError : ResponseFields := ⟨none, none, error.map some⟩
  let atResult : ResponseFields := { atError with id, result := result.map present? }
  refine reads_record (.append (.append (?error : Fills _ _ _ atError)
    (.cons rfl rfl (reads_u64 h.id).slot (.nil _))) (?result : Fills _ _ _ atResult)) ?built
  case error =>
    exact fills_optionField rfl rfl (fun e _ => reads_string e) (fun _ => Json.noConfusion)
      (by cases error <;> rfl)
  case result =>
    cases result with
    | none => exact .nil _
    | some j => exact .cons rfl rfl (reads_optionalSlot (reads_present? (h.result j rfl))) (.nil _)
  case built => cases error <;> cases result <;> rfl

/-- No result and a result of null are the same outcome. -/
theorem outcome_present? (r : Response) :
    ({ r with result := r.result.bind present? } : Response).outcome = r.outcome := by
  obtain ⟨id, result, error⟩ := r
  cases result <;> simp [Response.outcome, present?_getD]

/-! ## All messages -/

/-- Everything that is sent is read as it was meant. -/
structure RoundTrips : Prop where
  ping : ∀ p : Ping, p.Fits → Json.decode Ping.decoder p.toJson = .ok p
  pong : ∀ p : Pong, Json.decode Pong.decoder p.toJson = .ok p
  finish : ∀ f : Finish, f.Fits → Json.decode Finish.decoder f.toJson = .ok f
  failed : ∀ f : Failed, Json.decode Failed.decoder f.toJson = .ok f
  deleteCache : ∀ d : DeleteCache, Json.decode DeleteCache.decoder d.toJson = .ok d
  task : ∀ t : TaskMessage, t.Fits → Json.decode TaskMessage.decoder t.toJson = .ok t
  /-- The fields of a task message that may be absent are there if they say something, and none
  is null. -/
  fields : ∀ t : TaskMessage, ∃ fields, t.toJson = .obj fields ∧
    ("seed" ∈ fields.map Prod.fst ↔ t.seed ≠ none) ∧
    ("source" ∈ fields.map Prod.fst ↔ t.source ≠ none) ∧
    ("inputs" ∈ fields.map Prod.fst ↔ t.inputs ≠ []) ∧ ∀ f ∈ fields, f.2 ≠ .null
  /-- A response is read as it is, but for a result of null; this is the same outcome. -/
  response : ∀ r : Response, r.Fits →
    let read : Response := { r with result := r.result.bind present? }
    Json.decode Response.decoder r.toJson = .ok read ∧ read.outcome = r.outcome

theorem messages_roundTrip : RoundTrips where
  ping _ h := (reads_ping h).decode
  pong p := (reads_pong p).decode
  finish _ h := (reads_finish h).decode
  failed f := (reads_failed f).decode
  deleteCache d := (reads_deleteCache d).decode
  task _ h := (reads_task h).decode
  fields := task_fields
  response r h := ⟨(reads_response h).decode, outcome_present? r⟩

/-- A task with all its parts, and with the largest numbers that it may have. -/
def fullTask : TaskMessage where
  name := ⟨"execution1-task7"⟩
  kind := .reducing
  execution := ⟨"execution1"⟩
  session :=
    { name := ⟨"session1"⟩, producer := "raytracer", format := ""
      resources := [⟨"mesh", "s3://m"⟩]
      updates :=
        [.obj [("camera", .obj [("x", .int (-1)), ("y", .null)]), ("depth", .arr [.null])]] }
  seed := some Word.top
  source := some (.worker ⟨"10.0.0.2", 0xFFFF, 0⟩)
  inputs := [⟨⟨"execution1-task3"⟩, Word.top, ⟨"10.0.0.3", 7000, 7001⟩⟩]

theorem fullTask_fits : fullTask.Fits where
  session j hj := by
    cases List.mem_singleton.1 hj
    have outer : ["camera", "depth"].Pairwise (· < ·) := by decide +kernel
    have inner : ["x", "y"].Pairwise (· < ·) := by decide +kernel
    exact ⟨List.pairwise_map.1 outer, ⟨List.pairwise_map.1 inner, trivial, trivial, trivial⟩,
      ⟨trivial, trivial⟩, trivial⟩
  seed n hn := by cases hn; decide
  source s hs := by cases hs; exact ⟨by decide, by decide⟩
  inputs i hi := by cases List.mem_singleton.1 hi; exact ⟨by decide, by decide, by decide⟩

def fullPing : Ping := ⟨⟨"worker1"⟩, ⟨"10.0.0.1", 0xFFFF⟩⟩

theorem fullPing_fits : fullPing.Fits := (by decide : 0xFFFF < Word.size16)

def fullFinish : Finish where
  kind := .task
  worker := ⟨"worker1"⟩
  task := ⟨"execution1-task7"⟩
  elapsed := Word.top
  weight := some Word.top
  cached := some [⟨"session1"⟩]

theorem fullFinish_fits : fullFinish.Fits :=
  ⟨by decide, fun n hn => by cases hn; decide⟩

/-- A response with a result of null, which is read as no result. -/
def nullResponse : Response := ⟨Word.top, some .null, none⟩

theorem nullResponse_fits : nullResponse.Fits :=
  ⟨by decide, fun j hj => by cases hj; trivial⟩

theorem messages_roundTrip_full :
    (fullTask.Fits ∧ Json.decode TaskMessage.decoder fullTask.toJson = .ok fullTask) ∧
    (fullPing.Fits ∧ Json.decode Ping.decoder fullPing.toJson = .ok fullPing) ∧
    (fullFinish.Fits ∧ Json.decode Finish.decoder fullFinish.toJson = .ok fullFinish) ∧
    (nullResponse.Fits ∧
      Json.decode Response.decoder nullResponse.toJson = .ok ⟨Word.top, none, none⟩) :=
  ⟨⟨fullTask_fits, messages_roundTrip.task fullTask fullTask_fits⟩,
    ⟨fullPing_fits, messages_roundTrip.ping fullPing fullPing_fits⟩,
    ⟨fullFinish_fits, messages_roundTrip.finish fullFinish fullFinish_fits⟩,
    ⟨nullResponse_fits, (messages_roundTrip.response nullResponse nullResponse_fits).1⟩⟩

end Wire
end RenderFarm
