import RenderFarm.OrderedMap
import RenderFarm.Worker

/-!
# RenderFarm.Cluster

A cluster with a fixed set of workers. A destroyed worker is no longer listed.
-/

namespace RenderFarm

structure Cluster where
  workers : OrderedMap WorkerName Worker

namespace Cluster

/-- Of a name given twice, the later worker takes the place of the earlier one. -/
def ofList (ws : List Worker) : Cluster := ⟨.ofList (ws.map fun w => (w.name, w))⟩

def instances (c : Cluster) : List Worker := c.workers.values

def destroy (c : Cluster) (name : WorkerName) : Cluster := ⟨c.workers.erase name⟩

end Cluster
end RenderFarm
