import RenderFarm.Json.Fault
import RenderFarm.Name

/-!
# RenderFarm.Failure

Why a request could not be served. A failure is a cause; `Failure.message` is its wording.
-/

namespace RenderFarm

/-- What is wrong with a request. -/
inductive RequestFault where
  | unknownSession (session : SessionName)
  | notOwner (session : SessionName)
  /-- A session with a running execution is not deleted. -/
  | inUse (session : SessionName) (execution : ExecutionName)
  /-- A session runs one execution at a time. -/
  | alreadyRunning (session : SessionName) (execution : ExecutionName)
  | nothingToProduce
  | unknownExecution (execution : ExecutionName)
  | noResult (execution : ExecutionName)
  | unknownMethod (method : String)
  | stated (text : String)
  deriving DecidableEq, Repr

def RequestFault.message : RequestFault → String
  | .unknownSession s => "no such session: " ++ s.text
  | .notOwner s => "not allowed to access session " ++ s.text
  | .inUse s e => "session " ++ s.text ++ " has running execution " ++ e.text
  | .alreadyRunning s e => "session " ++ s.text ++ " already has running execution " ++ e.text
  | .nothingToProduce => "parallel must be a positive number"
  | .unknownExecution e => "no such execution: " ++ e.text
  | .noResult e => "execution " ++ e.text ++ " has no result"
  | .unknownMethod m => "unknown method: " ++ m
  | .stated text => text

/-- Why a worker cannot be used. -/
inductive WorkerFault where
  | unknownWorker (worker : WorkerName)
  | resultGone (worker : WorkerName) (execution : ExecutionName)
  /-- The worker does not serve what it was asked for. -/
  | refused (url status : String)
  | stated (text : String)
  deriving DecidableEq, Repr

def WorkerFault.message : WorkerFault → String
  | .unknownWorker w => "unknown worker " ++ w.text
  | .resultGone w e =>
    "worker " ++ w.text ++ " holding the result of execution " ++ e.text ++ " is gone"
  | .refused url status => url ++ " returned " ++ status
  | .stated text => text

/-- What went wrong in a call that reached its peer. -/
inductive CallFault where
  | closed (method : String)
  | foreignAnswer (id : Nat) (method : String)
  | timedOut
  | stated (text : String)
  deriving DecidableEq, Repr

def CallFault.message : CallFault → String
  | .closed m => "connection closed before " ++ m ++ " response"
  | .foreignAnswer id m => "unexpected response ID " ++ toString id ++ " for " ++ m
  | .timedOut => "deadline has elapsed"
  | .stated text => text

/-- What a configuration lacks. -/
inductive ConfigFault where
  | missing (text : String)
  | invalid (text : String)
  deriving DecidableEq, Repr

def ConfigFault.message : ConfigFault → String
  | .missing text => "missing argument: " ++ text
  | .invalid text => "invalid argument: " ++ text

/-- What should not have happened. -/
inductive InternalFault where
  | stopped
  | idsExhausted
  | notPending
  | lostSession (session : SessionName) (task : TaskName)
  | logStarted
  | logFinished
  | stated (text : String)
  deriving DecidableEq, Repr

def InternalFault.message : InternalFault → String
  | .stopped => "channel closed"
  | .idsExhausted => "ID overflow"
  | .notPending => "the server must be in pending state before it can be ready"
  | .lostSession s t => "no session " ++ s.text ++ " for task " ++ t.text
  | .logStarted => "telemetry already initialized"
  | .logFinished => "telemetry has been finalized and cannot be re-initialized"
  | .stated text => text

inductive Failure where
  | request (fault : RequestFault)
  | unavailable (fault : WorkerFault)
  /-- The peer was not reached, so nothing was delivered to it. -/
  | connection (text : String)
  | call (fault : CallFault)
  | io (text : String)
  | json (fault : Json.Fault)
  | http (text : String)
  | config (fault : ConfigFault)
  | internal (fault : InternalFault)
  deriving DecidableEq, Repr

namespace Failure

def jsonText : Json.Fault → String
  | .syntaxError => "malformed text"
  | .misfit m => m.message

def message : Failure → String
  | .request f => "invalid request: " ++ f.message
  | .unavailable f => "worker unavailable: " ++ f.message
  | .connection text => "connection error: " ++ text
  | .call f => "RPC error: " ++ f.message
  | .io text => "IO error: " ++ text
  | .json f => "JSON error: " ++ jsonText f
  | .http text => "HTTP error: " ++ text
  | .config f => "error in common module: " ++ f.message
  | .internal f => "internal error: " ++ f.message

/-- Whether sending the request again cannot deliver it twice. -/
def isRetryable : Failure → Bool
  | .connection _ => true
  | _ => false

end Failure
end RenderFarm
