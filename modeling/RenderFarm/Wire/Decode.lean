import RenderFarm.Json.Decode
import RenderFarm.Wire.Encode

/-!
# RenderFarm.Wire.Decode

Decoders for the messages. A finish report names its task by `taskName` or `task`, either as a
string or as an object with a `name`.
-/

namespace RenderFarm
namespace Wire

open Json (Decoder Draft Fault Misfit Place Origin)
open Json.Decoder (Slot)

def workerName : Decoder WorkerName := Json.Decoder.string.map .mk
def sessionName : Decoder SessionName := Json.Decoder.string.map .mk
def executionName : Decoder ExecutionName := Json.Decoder.string.map .mk
def taskName : Decoder TaskName := Json.Decoder.string.map .mk

/-- The slot of a field that may be absent. -/
def optional {σ : Type} (s : Slot σ) : Slot σ := { s with required := false }

/-! ## Addresses -/

structure HostPort where
  host : Option String := none
  port : Option Nat := none

def CoordinatorAddress.decoder : Decoder CoordinatorAddress :=
  Json.Decoder.record "struct CoordinatorAddress"
    [.of "host" (·.host.isSome) Json.Decoder.string fun a s => { s with host := some a },
      .of "port" (·.port.isSome) Json.Decoder.u16 fun a s => { s with port := some a }]
    ({} : HostPort)
    fun s =>
      match s.host, s.port with
      | some host, some port => some ⟨host, port⟩
      | _, _ => none

structure HostPorts where
  host : Option String := none
  port : Option Nat := none
  resourcePort : Option Nat := none

def addressDecoder : Decoder WorkerAddress :=
  Json.Decoder.record "struct WorkerAddress"
    [.of "host" (·.host.isSome) Json.Decoder.string fun a s => { s with host := some a },
      .of "port" (·.port.isSome) Json.Decoder.u16 fun a s => { s with port := some a },
      .of "resourcePort" (·.resourcePort.isSome) Json.Decoder.u16
        fun a s => { s with resourcePort := some a }]
    ({} : HostPorts)
    fun s =>
      match s.host, s.port, s.resourcePort with
      | some host, some port, some resourcePort => some ⟨host, port, resourcePort⟩
      | _, _, _ => none

/-! ## Messages from the coordinator -/

structure PingFields where
  worker : Option WorkerName := none
  coordinator : Option CoordinatorAddress := none

def Ping.decoder : Decoder Ping :=
  Json.Decoder.record "struct PingParams"
    [.of "workerName" (·.worker.isSome) workerName fun a s => { s with worker := some a },
      .of "master" (·.coordinator.isSome) CoordinatorAddress.decoder
        fun a s => { s with coordinator := some a }]
    ({} : PingFields)
    fun s =>
      match s.worker, s.coordinator with
      | some worker, some coordinator => some ⟨worker, coordinator⟩
      | _, _ => none

def DeleteCache.decoder : Decoder DeleteCache :=
  Json.Decoder.record "struct DeleteCacheParams"
    [.of "sessionName" Option.isSome sessionName fun a _ => some a]
    (none : Option SessionName)
    fun s => s.map .mk

/-! ## Messages from workers -/

structure LogFields where
  source : Option String := none
  text : Option String := none

def LogLine.decoder : Decoder LogLine :=
  Json.Decoder.record "struct WorkerLog"
    [.of "from" (·.source.isSome) Json.Decoder.string fun a s => { s with source := some a },
      .of "message" (·.text.isSome) Json.Decoder.string fun a s => { s with text := some a }]
    ({} : LogFields)
    fun s =>
      match s.source, s.text with
      | some source, some text => some ⟨source, text⟩
      | _, _ => none

structure PongFields where
  worker : Option WorkerName := none
  logs : Option (List LogLine) := none
  cached : Option (List SessionName) := none

def Pong.decoder : Decoder Pong :=
  Json.Decoder.record "struct PongParams"
    [.of "workerName" (·.worker.isSome) workerName fun a s => { s with worker := some a },
      optional (.of "logs" (·.logs.isSome) (Json.Decoder.list LogLine.decoder)
        fun a s => { s with logs := some a }),
      optional (.of "cachedSessionNames" (·.cached.isSome) (Json.Decoder.list sessionName)
        fun a s => { s with cached := some a })]
    ({} : PongFields)
    fun s => s.worker.map fun worker => ⟨worker, s.logs.getD [], s.cached.getD []⟩

def finishKind : Decoder FinishKind :=
  Json.Decoder.variant [("TASK", .task), ("FETCHING", .fetching)]

/-- The `name` of an object, where each key that is not `name` is passed over. -/
def nameOf : List (Option String × Draft) → Option String → Option String
  | [], found => found
  | (some "name", d) :: fs, none =>
    match d with
    | .str s => nameOf fs (some s)
    | _ => none
  | (some "name", _) :: _, some _ => none
  | _ :: fs, found => nameOf fs found

/-- A task by its name, or by an object with its name. -/
def taskReference : Decoder TaskName := fun p d =>
  match d.toJson? p.depth with
  | none => .error .syntaxError
  | some _ =>
    match d with
    | .str s => .ok ⟨s⟩
    | .obj fields _ =>
      match nameOf fields none with
      | some s => .ok ⟨s⟩
      | none => Json.Decoder.misfit (.noVariant "TaskReference")
    | _ => Json.Decoder.misfit (.noVariant "TaskReference")

structure FinishFields where
  kind : Option FinishKind := none
  worker : Option WorkerName := none
  task : Option TaskName := none
  elapsed : Option Nat := none
  weight : Option (Option Nat) := none
  cached : Option (Option (List SessionName)) := none

def Finish.slots : List (Slot FinishFields) :=
  [.of "type" (·.kind.isSome) finishKind fun a s => { s with kind := some a },
    .of "workerName" (·.worker.isSome) workerName fun a s => { s with worker := some a },
    { Slot.of "taskName" (·.task.isSome) taskReference (fun a s => { s with task := some a }) with
      aliases := ["task"] },
    .of "elapsedTime" (·.elapsed.isSome) Json.Decoder.u64 fun a s => { s with elapsed := some a },
    optional (.of "weight" (·.weight.isSome) (Json.Decoder.option Json.Decoder.u64)
      fun a s => { s with weight := some a }),
    optional (.of "cachedSessionNames" (·.cached.isSome)
      (Json.Decoder.option (Json.Decoder.list sessionName))
      fun a s => { s with cached := some a })]

def Finish.decoder : Decoder Finish :=
  Json.Decoder.record "struct FinishParams" Finish.slots ({} : FinishFields)
    fun s =>
      match s.kind, s.worker, s.task, s.elapsed with
      | some kind, some worker, some task, some elapsed =>
        some ⟨kind, worker, task, elapsed, s.weight.getD none, s.cached.getD none⟩
      | _, _, _, _ => none

structure FailedFields where
  task : Option TaskName := none
  worker : Option WorkerName := none
  reason : Option String := none

def Failed.decoder : Decoder Failed :=
  Json.Decoder.record "struct FailedParams"
    [.of "taskName" (·.task.isSome) taskName fun a s => { s with task := some a },
      .of "workerName" (·.worker.isSome) workerName fun a s => { s with worker := some a },
      .of "reason" (·.reason.isSome) Json.Decoder.string fun a s => { s with reason := some a }]
    ({} : FailedFields)
    fun s =>
      match s.task, s.worker, s.reason with
      | some task, some worker, some reason => some ⟨task, worker, reason⟩
      | _, _, _ => none

/-! ## Tasks -/

structure ResourceFields where
  kind : Option String := none
  location : Option String := none

def Resource.decoder : Decoder Resource :=
  Json.Decoder.record "struct ResourceDescriptor"
    [.of "type" (·.kind.isSome) Json.Decoder.string fun a s => { s with kind := some a },
      .of "location" (·.location.isSome) Json.Decoder.string
        fun a s => { s with location := some a }]
    ({} : ResourceFields)
    fun s =>
      match s.kind, s.location with
      | some kind, some location => some ⟨kind, location⟩
      | _, _ => none

structure SessionFields where
  name : Option SessionName := none
  producer : Option String := none
  format : Option String := none
  resources : Option (List Resource) := none
  updates : Option (List Json) := none

def SessionMessage.decoder : Decoder SessionMessage :=
  Json.Decoder.record "struct SessionMessage"
    [.of "name" (·.name.isSome) sessionName fun a s => { s with name := some a },
      .of "producer" (·.producer.isSome) Json.Decoder.string
        fun a s => { s with producer := some a },
      .of "format" (·.format.isSome) Json.Decoder.string fun a s => { s with format := some a },
      .of "resources" (·.resources.isSome) (Json.Decoder.list Resource.decoder)
        fun a s => { s with resources := some a },
      .of "updates" (·.updates.isSome) (Json.Decoder.list Json.Decoder.json)
        fun a s => { s with updates := some a }]
    ({} : SessionFields)
    fun s =>
      match s.name, s.producer, s.format, s.resources, s.updates with
      | some name, some producer, some format, some resources, some updates =>
        some ⟨name, producer, format, resources, updates⟩
      | _, _, _, _, _ => none

structure InputFields where
  task : Option TaskName := none
  weight : Option Nat := none
  worker : Option WorkerAddress := none

def InputMessage.decoder : Decoder InputMessage :=
  Json.Decoder.record "struct ReduceInputMessage"
    [.of "taskName" (·.task.isSome) taskName fun a s => { s with task := some a },
      .of "weight" (·.weight.isSome) Json.Decoder.u64 fun a s => { s with weight := some a },
      .of "worker" (·.worker.isSome) addressDecoder fun a s => { s with worker := some a }]
    ({} : InputFields)
    fun s =>
      match s.task, s.weight, s.worker with
      | some task, some weight, some worker => some ⟨task, weight, worker⟩
      | _, _, _ => none

/-- The two variants of a source. -/
inductive SourceTag where
  | external
  | worker
  deriving DecidableEq, Repr

def sourceTag : Decoder SourceTag := fun p d =>
  match Json.Decoder.variantName p d with
  | .error e => .error e
  | .ok name => Json.Decoder.variantNamed [("ORIGINAL", .external), ("WORKER", .worker)] name

/-- Sets a value aside: it must be complete. -/
def buffer (p : Place) (d : Draft) : Except Fault Unit :=
  match d.toJson? p.depth with
  | some _ => .ok ()
  | none => .error .syntaxError

/-- Splits the fields of an object into its tag and the others, which are set aside. -/
def splitTag (p : Place) :
    List (Option String × Draft) → Option SourceTag →
      Except Fault (Option SourceTag × List (Option String × Draft))
  | [], tag => .ok (tag, [])
  | (none, _) :: _, _ => .error .syntaxError
  | (some key, d) :: fs, tag =>
    if key = "type" then
      match tag with
      | some _ => Json.Decoder.misfit (.duplicateField "type")
      | none =>
        match sourceTag p d with
        | .error e => .error e
        | .ok t => splitTag p fs (some t)
    else
      match buffer p d with
      | .error e => .error e
      | .ok () =>
        match splitTag p fs tag with
        | .error e => .error e
        | .ok (tag, rest) => .ok (tag, (some key, d) :: rest)

/-- Sets all items aside. -/
def bufferAll (p : Place) : List Draft → Except Fault Unit
  | [] => .ok ()
  | d :: ds =>
    match buffer p d with
    | .error e => .error e
    | .ok () => bufferAll p ds

def workerVariant : Decoder SourceMessage :=
  Json.Decoder.record "struct variant ResourceSourceMessage::Worker"
    [.of "worker" Option.isSome addressDecoder fun a _ => some a]
    (none : Option WorkerAddress)
    fun s => s.map .worker

/-- The content of a source that was set aside. -/
def taggedSource (tag : SourceTag) (content : Draft) : Except Fault SourceMessage :=
  match tag with
  | .worker => workerVariant ⟨.buffered, none⟩ content
  | .external =>
    match content with
    | .arr ds whole =>
      match Json.Decoder.closeArray ⟨.buffered, none⟩ 0 ds.length whole with
      | .error e => .error e
      | .ok () => .ok .external
    | _ => .ok .external

/-- A source is told by its tag: the field `type` of an object, or the first item of an array. -/
def SourceMessage.decoder : Decoder SourceMessage := fun p d =>
  match d with
  | .obj fields whole =>
    match Json.Decoder.enter p with
    | .error e => .error e
    | .ok p =>
      match splitTag p fields none with
      | .error e => .error e
      | .ok (tag, content) =>
        if whole then
          match tag with
          | none => Json.Decoder.misfit (.missingField "type")
          | some tag => taggedSource tag (.obj content true)
        else .error .syntaxError
  | .arr ds whole =>
    match Json.Decoder.enter p with
    | .error e => .error e
    | .ok p =>
      match ds with
      | [] => if whole then Json.Decoder.misfit (.missingField "type") else .error .syntaxError
      | d :: ds =>
        match sourceTag p d with
        | .error e => .error e
        | .ok tag =>
          match bufferAll p ds with
          | .error e => .error e
          | .ok () => if whole then taggedSource tag (.arr ds true) else .error .syntaxError
  | d => .error (d.refuse "internally tagged enum ResourceSourceMessage")

def taskKind : Decoder TaskKind :=
  Json.Decoder.variant [("PRODUCING", .producing), ("REDUCING", .reducing)]

structure TaskFields where
  name : Option TaskName := none
  kind : Option TaskKind := none
  execution : Option ExecutionName := none
  session : Option SessionMessage := none
  seed : Option (Option Nat) := none
  source : Option (Option SourceMessage) := none
  inputs : Option (List InputMessage) := none

def TaskMessage.decoder : Decoder TaskMessage :=
  Json.Decoder.record "struct TaskMessage"
    [.of "name" (·.name.isSome) taskName fun a s => { s with name := some a },
      .of "type" (·.kind.isSome) taskKind fun a s => { s with kind := some a },
      .of "executionName" (·.execution.isSome) executionName
        fun a s => { s with execution := some a },
      .of "session" (·.session.isSome) SessionMessage.decoder
        fun a s => { s with session := some a },
      optional (.of "seed" (·.seed.isSome) (Json.Decoder.option Json.Decoder.u64)
        fun a s => { s with seed := some a }),
      optional (.of "source" (·.source.isSome) (Json.Decoder.option SourceMessage.decoder)
        fun a s => { s with source := some a }),
      optional (.of "inputs" (·.inputs.isSome) (Json.Decoder.list InputMessage.decoder)
        fun a s => { s with inputs := some a })]
    ({} : TaskFields)
    fun s =>
      match s.name, s.kind, s.execution, s.session with
      | some name, some kind, some execution, some session =>
        some ⟨name, kind, execution, session, s.seed.getD none, s.source.getD none,
          s.inputs.getD []⟩
      | _, _, _, _ => none

/-! ## Frames -/

structure RequestFields where
  id : Option Nat := none
  method : Option String := none
  params : Option Json := none

def Request.decoder : Decoder Request :=
  Json.Decoder.record "struct RpcRequest"
    [.of "id" (·.id.isSome) Json.Decoder.u64 fun a s => { s with id := some a },
      .of "method" (·.method.isSome) Json.Decoder.string fun a s => { s with method := some a },
      optional (.of "params" (·.params.isSome) Json.Decoder.json
        fun a s => { s with params := some a })]
    ({} : RequestFields)
    fun s =>
      match s.id, s.method with
      | some id, some method => some ⟨id, method, s.params.getD .null⟩
      | _, _ => none

structure ResponseFields where
  id : Option Nat := none
  result : Option (Option Json) := none
  error : Option (Option String) := none

def Response.decoder : Decoder Response :=
  Json.Decoder.record "struct RpcResponse"
    [.of "id" (·.id.isSome) Json.Decoder.u64 fun a s => { s with id := some a },
      optional (.of "result" (·.result.isSome) (Json.Decoder.option Json.Decoder.json)
        fun a s => { s with result := some a }),
      optional (.of "error" (·.error.isSome) (Json.Decoder.option Json.Decoder.string)
        fun a s => { s with error := some a })]
    ({} : ResponseFields)
    fun s => s.id.map fun id => ⟨id, s.result.getD none, s.error.getD none⟩

end Wire
end RenderFarm
