import RenderFarm.Wire.Message

/-!
# RenderFarm.Wire.Encode

The JSON values of the messages, with the keys of each object in ascending order. Optional parts
of a task message and of a response are left out when they are absent; those of a finish report
are written as null.
-/

namespace RenderFarm
namespace Wire

def natJson (n : Nat) : Json := .int n

def optionJson {α : Type} (f : α → Json) : Option α → Json
  | none => .null
  | some a => f a

/-- A field that is left out when absent. -/
def optionField {α : Type} (key : String) (f : α → Json) : Option α → List (String × Json)
  | none => []
  | some a => [(key, f a)]

def namesJson (names : List SessionName) : Json := .arr (names.map fun n => .str n.text)

def CoordinatorAddress.toJson (a : CoordinatorAddress) : Json :=
  .obj [("host", .str a.host), ("port", natJson a.port)]

def Ping.toJson (p : Ping) : Json :=
  .obj [("master", p.coordinator.toJson), ("workerName", .str p.worker.text)]

def LogLine.toJson (l : LogLine) : Json :=
  .obj [("from", .str l.source), ("message", .str l.text)]

def Pong.toJson (p : Pong) : Json :=
  .obj [("cachedSessionNames", namesJson p.cached), ("logs", .arr (p.logs.map LogLine.toJson)),
    ("workerName", .str p.worker.text)]

def FinishKind.text : FinishKind → String
  | .task => "TASK"
  | .fetching => "FETCHING"

def Finish.toJson (f : Finish) : Json :=
  .obj [("cachedSessionNames", optionJson namesJson f.cached), ("elapsedTime", natJson f.elapsed),
    ("taskName", .str f.task.text), ("type", .str f.kind.text),
    ("weight", optionJson natJson f.weight), ("workerName", .str f.worker.text)]

def Failed.toJson (f : Failed) : Json :=
  .obj [("reason", .str f.reason), ("taskName", .str f.task.text),
    ("workerName", .str f.worker.text)]

def DeleteCache.toJson (d : DeleteCache) : Json :=
  .obj [("sessionName", .str d.session.text)]

def addressJson (a : WorkerAddress) : Json :=
  .obj [("host", .str a.host), ("port", natJson a.port), ("resourcePort", natJson a.resourcePort)]

def Resource.toJson (r : Resource) : Json :=
  .obj [("location", .str r.location), ("type", .str r.kind)]

def SessionMessage.toJson (s : SessionMessage) : Json :=
  .obj [("format", .str s.format), ("name", .str s.name.text), ("producer", .str s.producer),
    ("resources", .arr (s.resources.map Resource.toJson)), ("updates", .arr s.updates)]

def SourceMessage.toJson : SourceMessage → Json
  | .external => .obj [("type", .str "ORIGINAL")]
  | .worker a => .obj [("type", .str "WORKER"), ("worker", addressJson a)]

def InputMessage.toJson (i : InputMessage) : Json :=
  .obj [("taskName", .str i.task.text), ("weight", natJson i.weight),
    ("worker", addressJson i.worker)]

def kindText : TaskKind → String
  | .producing => "PRODUCING"
  | .reducing => "REDUCING"

def TaskMessage.toJson (t : TaskMessage) : Json :=
  .obj ([("executionName", .str t.execution.text)] ++
    (if t.inputs.isEmpty then [] else [("inputs", .arr (t.inputs.map InputMessage.toJson))]) ++
    [("name", .str t.name.text)] ++
    optionField "seed" natJson t.seed ++
    [("session", t.session.toJson)] ++
    optionField "source" SourceMessage.toJson t.source ++
    [("type", .str (kindText t.kind))])

def Request.toJson (r : Request) : Json :=
  .obj [("id", natJson r.id), ("method", .str r.method), ("params", r.params)]

def Response.toJson (r : Response) : Json :=
  .obj (optionField "error" .str r.error ++ [("id", natJson r.id)] ++
    optionField "result" (fun j => j) r.result)

end Wire
end RenderFarm
