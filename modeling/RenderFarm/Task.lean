import RenderFarm.Name

/-!
# RenderFarm.Task

The units of work. A producing task renders one unit from a seed; a reducing task merges weighted
partial results into one. The weight of a partial result is the number of producing units that
it stands for.
-/

namespace RenderFarm

inductive TaskKind where
  | producing
  | reducing
  deriving DecidableEq, Repr

/-- Where a producing task obtains the resources of its session. -/
inductive ResourceSource where
  /-- The session declares no resources. -/
  | nothing
  /-- They are fetched from where the session says that they are. -/
  | external
  /-- They are copied from a worker that already holds them. -/
  | cached (worker : WorkerName)
  deriving DecidableEq, Repr

/-- The output of a task, held by the worker that ran it. -/
structure PartialResult where
  task : TaskName
  worker : WorkerName
  weight : Nat
  deriving DecidableEq, Repr

/-- The producing units that a list of partial results stands for. -/
def totalWeight : List PartialResult → Nat
  | [] => 0
  | r :: rs => r.weight + totalWeight rs

inductive TaskWork where
  | produce (seed : Nat) (source : ResourceSource)
  | reduce (inputs : List PartialResult)
  deriving DecidableEq, Repr

def TaskWork.kind : TaskWork → TaskKind
  | .produce .. => .producing
  | .reduce .. => .reducing

/-- A task with the time in milliseconds that it may run. -/
structure Task where
  name : TaskName
  session : SessionName
  execution : ExecutionName
  work : TaskWork
  timeout : Nat
  deriving DecidableEq, Repr

namespace Task

def kind (t : Task) : TaskKind := t.work.kind

/-- The producing units that the result of the task is expected to stand for. -/
def expectedWeight (t : Task) : Nat :=
  match t.work with
  | .produce .. => 1
  | .reduce inputs => totalWeight inputs

end Task
end RenderFarm
