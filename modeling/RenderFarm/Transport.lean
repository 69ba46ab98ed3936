import RenderFarm.Failure
import RenderFarm.Http.Response
import RenderFarm.Http.Target
import RenderFarm.Retry
import RenderFarm.Wire.Encode
import RenderFarm.Wire.Frame

/-!
# RenderFarm.Transport

How the coordinator calls its workers. Every call has a connection of its own, on which one request
is sent and one response awaited; results are fetched over HTTP.

What comes of a call depends on what the worker does when it is contacted, a `Contact`.

* `call` is the outcome of one contact.
* `run` is the call that gives a worker a task. It is made again only if it did not reach the
  worker, so the worker gets the task at most once.
* `fetch` fetches a result, and tells what was asked for.
-/

namespace RenderFarm

/-- What comes of an attempt to reach a worker. -/
inductive Contact where
  | refused
  /-- No connection, for another reason that the network gives. -/
  | unreachable (reason : String)
  /-- No connection within the time for connecting. -/
  | unanswered
  /-- The worker takes the request and does not answer in time. -/
  | silent
  /-- The connection breaks before there is an answer. -/
  | broken (reason : String)
  /-- The worker takes the request, sends the bytes and closes the connection. -/
  | answered (bytes : List UInt8)
  deriving DecidableEq, Repr

namespace Contact

/-- Whether the worker may have got the request. -/
def isDelivered : Contact → Bool
  | refused | unreachable _ | unanswered => false
  | silent | broken _ | answered _ => true

end Contact

namespace Transport

/-! ## Calls -/

/-- The number of the only request on a connection. -/
def requestId : Nat := 1

def request (method : String) (params : Json) : Wire.Request := ⟨requestId, method, params⟩

/-- What the first response in the bytes says. -/
def readAnswer (method : String) (bytes : List UInt8) : Except Failure Json :=
  match Wire.firstFrame Wire.Response.decoder (Wire.linesOf bytes) with
  | .blank => .error (.call (.closed method))
  | .garbled => .error (.io "stream did not contain valid UTF-8")
  | .malformed f => .error (.json f)
  | .frame r =>
    if r.id = requestId then
      match r.outcome with
      | .ok j => .ok j
      | .error text => .error (.call (.stated text))
    else .error (.call (.foreignAnswer r.id method))

/-- The outcome of a call to the peer, a host and a port with a colon between them. -/
def call (peer method : String) : Contact → Except Failure Json
  | .refused => .error (.connection (peer ++ ": Connection refused (os error 111)"))
  | .unreachable reason => .error (.connection (peer ++ ": " ++ reason))
  | .unanswered => .error (.connection (peer ++ ": connect timed out"))
  | .silent => .error (.call .timedOut)
  | .broken reason => .error (.io reason)
  | .answered bytes => readAnswer method bytes

/-- Gives the peer a task; the contact depends on the number of the attempt. -/
def run (peer : String) (s : RetryStrategy) (contacts : Nat → Contact) :
    RetryStrategy.Attempts Failure Json :=
  s.run (fun n => call peer Wire.runMethod (contacts n)) Failure.isRetryable

/-! ## Results -/

/-- Where the peer serves the result of a task. -/
def resultPath (task : TaskName) : String := "/results/" ++ task.text

/-- How many redirections are followed. -/
def maxRedirections : Nat := 10

/-- What came of a fetch, and the targets that were asked for. -/
structure Fetch where
  targets : List Http.Target
  result : Except Failure (List UInt8)

/-- Asks for the target, then for what it leads to; `left` redirections may follow. -/
def fetchFrom (url : String) (t : Http.Target) : (left : Nat) → List Contact → Fetch
  | _, [] | _, .refused :: _ | _, .unreachable _ :: _ | _, .unanswered :: _ =>
    ⟨[], .error (.http "not reached")⟩
  | _, .silent :: _ | _, .broken _ :: _ => ⟨[t], .error (.http "no answer")⟩
  | left, .answered bytes :: contacts =>
    match Http.Response.read bytes with
    | none => ⟨[t], .error (.http "not understood")⟩
    | some r =>
      match r.location? with
      | some location =>
        match left, t.follow? location with
        | left + 1, some next =>
          let rest := fetchFrom url next left contacts
          ⟨t :: rest.targets, rest.result⟩
        | _, _ => ⟨[t], .error (.http "led astray")⟩
      | none =>
        if r.head.status.isSuccess then
          match r.body with
          | some body => ⟨[t], .ok body⟩
          | none => ⟨[t], .error (.http "cut short")⟩
        else ⟨[t], .error (.unavailable (.refused url r.head.status.text))⟩

/-- Fetches the result of a task from the peer. Contacts follow one another; after the last one
nothing can be reached. -/
def fetch (peer : String) (task : TaskName) (contacts : List Contact) : Fetch :=
  fetchFrom ("http://" ++ peer ++ resultPath task) (.ofText (resultPath task)) maxRedirections
    contacts

end Transport
end RenderFarm
