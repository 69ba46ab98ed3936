import RenderFarm.OrderedMap
import RenderFarm.Task

/-!
# RenderFarm.Execution.Basic

The state of one execution: a request for a number of producing units, rendered by producing
tasks, merged in groups by intermediate reducing tasks and finally into one result.

The weight of an execution is always somewhere: it is still to be produced (`target` beyond
`finished`), waits in `unreduced` or `reduced`, or is held by an outstanding merge. What is lost
is added to `target`, so exactly the missing units are produced again.

All counters are words, but they are counted here without that bound. An execution notes in
`overflowed` when a sum is no word. The program stops at such an addition, so that it does not get
any further than to the first note.
-/

namespace RenderFarm

inductive Phase where
  /-- One producing task runs until the resources of the session are on a worker. -/
  | fetching
  /-- Producing tasks fan out and their results are merged in groups. -/
  | producing
  | finalReducing
  | finished
  | failed
  deriving DecidableEq, Repr

def Phase.isTerminal : Phase → Bool
  | .finished | .failed => true
  | _ => false

/-- The limits that an execution is held to; times are in milliseconds. -/
structure ExecutionPolicy where
  taskTimeout : Nat
  minimumTimeout : Nat
  reducingRetries : Nat
  failureRatio : Float
  deriving DecidableEq, Repr

/-- The inputs of an outstanding merge and how often it has failed. -/
structure MergeGroup where
  inputs : List PartialResult
  attempts : Nat := 0
  deriving DecidableEq, Repr

def MergeGroup.weight (g : MergeGroup) : Nat := totalWeight g.inputs

/-- Time spent in each phase, in milliseconds; `total` is set when the execution ends. -/
structure PhaseTimes where
  fetching : Nat := 0
  producing : Nat := 0
  reducing : Nat := 0
  total : Nat := 0
  deriving DecidableEq, Repr

structure Execution where
  policy : ExecutionPolicy
  name : ExecutionName
  session : SessionName
  /-- The producing units asked for. -/
  parallel : Nat
  /-- Whether the session declares resources to fetch. -/
  fetches : Bool
  phase : Phase
  /-- The producing tasks that must be over before the final merge. -/
  target : Nat
  /-- The producing tasks that are over, failed ones included. -/
  finished : Nat
  failures : Nat
  /-- The producing tasks that are outstanding. -/
  producing : List TaskName
  /-- Results of producing tasks that no merge has taken yet. -/
  unreduced : List PartialResult
  /-- The intermediate merges that are outstanding. -/
  merging : OrderedMap TaskName MergeGroup
  /-- Results of intermediate merges. -/
  reduced : List PartialResult
  /-- The final merge, while it is outstanding. -/
  finalMerge : Option (TaskName × MergeGroup)
  /-- The time that a producing task may run. -/
  producingTimeout : Nat
  timeoutAdapted : Bool
  nextSeed : Nat
  nextTask : Nat
  lastFailure : Option String
  times : PhaseTimes
  startedAt : Nat
  result : Option PartialResult
  error : Option String
  /-- Whether a sum has exceeded a word. -/
  overflowed : Bool

namespace Execution

/-- The double nearest to a word. -/
def toDouble (n : Nat) : Float := (UInt64.ofNat n).toFloat

/-- How many results of producing tasks make a group: about the square root of the units. -/
def groupSize (e : Execution) : Nat :=
  max 1 (toDouble e.parallel).sqrt.toUInt64.toNat

/-- The number of producing failures that an execution survives. -/
def failureLimit (e : Execution) : Nat :=
  max 1 (toDouble e.parallel * e.policy.failureRatio).toUInt64.toNat

def isTerminal (e : Execution) : Bool := e.phase.isTerminal

/-- Every producing task asked for so far is over. -/
def producingDone (e : Execution) : Bool :=
  e.target ≤ e.finished && e.producing.isEmpty

/-- The tasks that are outstanding. -/
def outstanding (e : Execution) : List TaskName :=
  e.producing ++ e.merging.keys ++ (e.finalMerge.map Prod.fst).toList

/-- An execution that has issued nothing yet. -/
def create (policy : ExecutionPolicy) (name : ExecutionName) (session : SessionName)
    (parallel : Nat) (fetches : Bool) (now : Nat) : Execution where
  policy
  name
  session
  parallel
  fetches
  phase := if fetches then .fetching else .producing
  target := parallel
  finished := 0
  failures := 0
  producing := []
  unreduced := []
  merging := .empty
  reduced := []
  finalMerge := none
  producingTimeout := policy.taskTimeout
  timeoutAdapted := false
  nextSeed := 1
  nextTask := 1
  lastFailure := none
  times := {}
  startedAt := now
  result := none
  error := none
  overflowed := false

/-- What a client is shown of an execution. -/
structure Snapshot where
  name : ExecutionName
  session : SessionName
  parallel : Nat
  phase : Phase
  progress : Nat
  times : PhaseTimes
  result : Option PartialResult
  error : Option String
  deriving DecidableEq, Repr

def snapshot (e : Execution) : Snapshot where
  name := e.name
  session := e.session
  parallel := e.parallel
  phase := e.phase
  progress := e.finished - e.failures
  times := e.times
  result := e.result
  error := e.error

end Execution
end RenderFarm
