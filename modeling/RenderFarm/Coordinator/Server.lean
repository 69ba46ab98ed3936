import RenderFarm.Coordinator.Event
import RenderFarm.Wire.Frame

/-!
# RenderFarm.Coordinator.Server

The side of the coordinator that listens to the workers: every request that is understood becomes
an event, and every request gets a response.
-/

namespace RenderFarm
namespace Server

/-- The event that a call is, if there is still a coordinator to take it. -/
def accept (running : Bool) (method : String) (params : Json) : Except Failure Event :=
  match Event.ofCall method params with
  | .error f => .error f
  | .ok e => if running then .ok e else .error (.internal .stopped)

/-- The result of every call that was accepted. -/
def acknowledgement : Json := .obj []

/-- The response to a request, and the event that it leads to. -/
def answer (running : Bool) (r : Wire.Request) : Wire.Response × Option Event :=
  match accept running r.method r.params with
  | .ok e => (.ok r.id acknowledgement, some e)
  | .error f => (.failed r.id f.message, none)

/-- The responses on one connection in order, and the events that its requests lead to. -/
def converse (running : Bool) (bytes : List UInt8) : List Wire.Response × List Event :=
  let answers := (Wire.requests (Wire.linesOf bytes)).map (answer running)
  (answers.map Prod.fst, answers.filterMap Prod.snd)

end Server
end RenderFarm
