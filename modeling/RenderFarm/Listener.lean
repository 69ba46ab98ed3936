import RenderFarm.Failure

/-!
# RenderFarm.Listener

What the coordinator knows of the server that listens for reports of the workers. A started
server is pending until it tells the port that it has bound.
-/

namespace RenderFarm

inductive Listener where
  | stopped
  | pending
  | running (port : Nat)
  deriving DecidableEq, Repr

namespace Listener

def new : Listener := .stopped

/-- Starts a server; one that was started before is abandoned. -/
def start (_ : Listener) : Listener := .pending

/-- The server has bound the port. -/
def ready (l : Listener) (port : Nat) : Except InternalFault Listener :=
  match l with
  | .pending => .ok (.running port)
  | _ => .error .notPending

/-- Stops the server; tells whether it was asked to end, which only a running server is. -/
def stop (l : Listener) : Listener × Bool :=
  match l with
  | .running _ => (.stopped, true)
  | _ => (.stopped, false)

def port? : Listener → Option Nat
  | .running port => some port
  | _ => none

end Listener
end RenderFarm
