import RenderFarm.Json.Basic
import RenderFarm.Task
import RenderFarm.Worker

/-!
# RenderFarm.Wire.Message

The messages that the coordinator and its workers exchange.

A worker is sent `Ping`, `TaskMessage` and `DeleteCache`, and sends `Pong`, `Finish` and `Failed`.
Each travels as the parameters of a `Request`, which is answered by a `Response`.
-/

namespace RenderFarm
namespace Wire

/-- Where workers reach the coordinator. -/
structure CoordinatorAddress where
  host : String
  port : Nat
  deriving DecidableEq, Repr

structure Ping where
  worker : WorkerName
  coordinator : CoordinatorAddress
  deriving DecidableEq, Repr

/-- A line that a worker wants logged. -/
structure LogLine where
  source : String
  text : String
  deriving DecidableEq, Repr

/-- The answer to a ping, with the sessions whose resources the worker holds. -/
structure Pong where
  worker : WorkerName
  logs : List LogLine
  cached : List SessionName
  deriving DecidableEq, Repr

inductive FinishKind where
  | task
  | fetching
  deriving DecidableEq, Repr

/-- A worker has finished a task, or fetching the resources for it. -/
structure Finish where
  kind : FinishKind
  worker : WorkerName
  task : TaskName
  elapsed : Nat
  weight : Option Nat
  cached : Option (List SessionName)
  deriving DecidableEq, Repr

structure Failed where
  task : TaskName
  worker : WorkerName
  reason : String
  deriving DecidableEq, Repr

structure DeleteCache where
  session : SessionName
  deriving DecidableEq, Repr

/-- Something that a session needs on every worker. -/
structure Resource where
  kind : String
  location : String
  deriving DecidableEq, Repr

/-- What a worker needs to know of a session. -/
structure SessionMessage where
  name : SessionName
  producer : String
  format : String
  resources : List Resource
  updates : List Json
  deriving Repr

/-- Where a producing task takes the resources from. -/
inductive SourceMessage where
  | external
  | worker (address : WorkerAddress)
  deriving DecidableEq, Repr

/-- A partial result to merge, and where it is. -/
structure InputMessage where
  task : TaskName
  weight : Nat
  worker : WorkerAddress
  deriving DecidableEq, Repr

/-- A task to run. -/
structure TaskMessage where
  name : TaskName
  kind : TaskKind
  execution : ExecutionName
  session : SessionMessage
  seed : Option Nat
  source : Option SourceMessage
  inputs : List InputMessage
  deriving Repr

structure Request where
  id : Nat
  method : String
  params : Json
  deriving Repr

structure Response where
  id : Nat
  result : Option Json
  error : Option String
  deriving Repr

namespace Response

def ok (id : Nat) (result : Json) : Response := ⟨id, some result, none⟩

def failed (id : Nat) (message : String) : Response := ⟨id, none, some message⟩

/-- What the response says: an error if there is one, else the result, else null. -/
def outcome (r : Response) : Except String Json :=
  match r.error with
  | some e => .error e
  | none => .ok (r.result.getD .null)

end Response

/-! ## Methods -/

def pingMethod : String := "ping"
def pongMethod : String := "pong"
def runMethod : String := "run"
def finishMethod : String := "finish"
def failedMethod : String := "failed"
def deleteCacheMethod : String := "deleteCache"

end Wire
end RenderFarm
