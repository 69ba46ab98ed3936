import RenderFarm.Name

/-!
# RenderFarm.Worker

A worker as its cluster lists it: the machine that renders, where it takes requests and where it
serves the resources and results that it holds.
-/

namespace RenderFarm

structure Worker where
  name : WorkerName
  host : String
  port : Nat
  resourcePort : Nat
  deriving DecidableEq, Repr

/-- Where other machines reach a worker. -/
structure WorkerAddress where
  host : String
  port : Nat
  resourcePort : Nat
  deriving DecidableEq, Repr

def Worker.address (w : Worker) : WorkerAddress := ⟨w.host, w.port, w.resourcePort⟩

end RenderFarm
