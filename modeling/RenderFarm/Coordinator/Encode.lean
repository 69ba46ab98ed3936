import RenderFarm.Coordinator.Basic
import RenderFarm.Wire.Encode

/-!
# RenderFarm.Coordinator.Encode

The JSON values that clients are shown: executions, and the cluster.
-/

namespace RenderFarm

def Phase.text : Phase → String
  | .fetching => "FETCHING"
  | .producing => "PRODUCING"
  | .finalReducing => "FINAL_REDUCING"
  | .finished => "FINISHED"
  | .failed => "FAILED"

def PhaseTimes.toJson (t : PhaseTimes) : Json :=
  .obj [("fetching", Wire.natJson t.fetching), ("producing", Wire.natJson t.producing),
    ("reducing", Wire.natJson t.reducing), ("total", Wire.natJson t.total)]

def PartialResult.toJson (r : PartialResult) : Json :=
  .obj [("task", .str r.task.text), ("weight", Wire.natJson r.weight),
    ("worker", .str r.worker.text)]

/-- Result and error are left out when there is none. -/
def Execution.Snapshot.toJson (s : Execution.Snapshot) : Json :=
  .obj (Wire.optionField "error" .str s.error ++
    [("name", .str s.name.text), ("parallel", Wire.natJson s.parallel),
      ("progress", Wire.natJson s.progress)] ++
    Wire.optionField "result" PartialResult.toJson s.result ++
    [("sessionName", .str s.session.text), ("state", .str s.phase.text),
      ("time", s.times.toJson)])

def WorkerState.toJson : WorkerState → Json
  | .idle => .obj [("state", .str "free")]
  | .busy kind => .obj [("kind", .str (Wire.kindText kind)), ("state", .str "busy")]

def WorkerView.toJson (v : WorkerView) : Json :=
  .obj [("alive", .bool v.alive), ("host", .str v.worker.host), ("name", .str v.worker.name.text),
    ("outstandingPongs", Wire.optionJson Wire.natJson v.outstanding),
    ("port", Wire.natJson v.worker.port), ("resourcePort", Wire.natJson v.worker.resourcePort),
    ("state", Wire.optionJson WorkerState.toJson v.state)]

def ClusterView.toJson (v : ClusterView) : Json :=
  .obj [("coordinatorPort", Wire.optionJson Wire.natJson v.port),
    ("inFlightTasks", .arr (v.inFlight.map fun t => .str t.text)),
    ("pendingTasks", Wire.natJson v.pending),
    ("runningExecutions", .arr (v.running.map fun e => .str e.text)),
    ("workers", .arr (v.workers.map WorkerView.toJson))]

end RenderFarm
