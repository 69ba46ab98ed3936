import RenderFarm.Execution.Basic

/-!
# RenderFarm.Execution.Step

How an execution answers what happens to its tasks. Each operation gives the next state and the
actions that its surroundings have to carry out, in order:

* `start` issues the first producing tasks.
* `taskFinished`, `taskFailed` and `fetchingFinished` take the reports on outstanding tasks; a
  report on any other task changes nothing.
* `advance` issues whatever the state calls for: intermediate merges, the final merge, or the
  producing tasks that are still missing.
* `respond` takes any of these calls, and `respond?` says whether the program gets through it.
-/

namespace RenderFarm
namespace Execution

inductive Action where
  | enqueue (task : Task)
  /-- The producing tasks of the execution, waiting or running, get a new timeout. -/
  | adjustTimeout (timeout : Nat)
  | finish (result : PartialResult)
  | fail (reason : String)
  deriving DecidableEq, Repr

/-- What an execution needs to know of its surroundings. -/
structure Context where
  /-- A live worker holds the resources of the session. -/
  cacheWarm : Bool
  now : Nat
  deriving DecidableEq, Repr

/-- A worker's report that it has finished a task; `weight` is stated for merges only. -/
structure Completion where
  task : TaskName
  worker : WorkerName
  elapsed : Nat
  weight : Option Nat
  deriving DecidableEq, Repr

/-- The output of the completed task, standing for the given weight. -/
def Completion.output (c : Completion) (weight : Nat) : PartialResult :=
  ⟨c.task, c.worker, weight⟩

def PhaseTimes.close (t : PhaseTimes) (startedAt now : Nat) : PhaseTimes :=
  { t with total := Word.clamp (now - startedAt) }

/-- Whether a sum has exceeded a word, now that these have been formed. -/
def overflows (e : Execution) (sums : List Nat) : Bool :=
  sums.foldl (fun noted n => noted || Word.size ≤ n) e.overflowed

/-- Ends the execution with its result. -/
def finishWith (e : Execution) (r : PartialResult) (now : Nat) : Execution × List Action :=
  ({ e with phase := .finished, times := PhaseTimes.close e.times e.startedAt now,
            result := some r }, [.finish r])

/-- Ends the execution without a result. -/
def failWith (e : Execution) (reason : String) (now : Nat) : Execution × List Action :=
  ({ e with phase := .failed, times := PhaseTimes.close e.times e.startedAt now,
            error := some reason }, [.fail reason])

/-! ## Issuing tasks -/

def freshName (e : Execution) : TaskName := .ofExecution e.name e.nextTask

/-- The task that merges a group. -/
def mergeTask (e : Execution) (g : MergeGroup) : Task where
  name := e.freshName
  session := e.session
  execution := e.name
  work := .reduce g.inputs
  timeout := e.policy.taskTimeout

def startIntermediate (e : Execution) (g : MergeGroup) : Execution × List Action :=
  ({ e with merging := e.merging.insert e.freshName g, nextTask := e.nextTask + 1,
            overflowed := e.overflows [e.nextTask + 1] }, [.enqueue (e.mergeTask g)])

def startFinal (e : Execution) (g : MergeGroup) : Execution × List Action :=
  ({ e with finalMerge := some (e.freshName, g), nextTask := e.nextTask + 1,
            overflowed := e.overflows [e.nextTask + 1] }, [.enqueue (e.mergeTask g)])

/-- The `i`-th of the producing tasks that are issued together. -/
def producingTask (e : Execution) (i : Nat) : Task where
  name := .ofExecution e.name (e.nextTask + i)
  session := e.session
  execution := e.name
  work := .produce (e.nextSeed + i) (if e.fetches then .external else .nothing)
  timeout := e.producingTimeout

/-- Issues `n` producing tasks. -/
def startProducing (e : Execution) (n : Nat) : Execution × List Action :=
  let tasks := (List.range n).map e.producingTask
  ({ e with producing := e.producing ++ tasks.map Task.name, nextSeed := e.nextSeed + n,
            nextTask := e.nextTask + n,
            overflowed := e.overflows [e.nextTask + n, e.nextSeed + n] }, tasks.map .enqueue)

/-! ## Moving forward -/

/-- Merges all waiting results if they fill a group, or if no more of them will come. -/
def mergeWaiting (e : Execution) : Execution × List Action :=
  if e.groupSize ≤ e.unreduced.length || (e.producingDone && !e.unreduced.isEmpty) then
    { e with unreduced := [] }.startIntermediate { inputs := e.unreduced }
  else (e, [])

/-- A throttled execution runs one producing task at a time: its resources are not at hand. -/
def throttled (e : Execution) (ctx : Context) : Bool :=
  e.fetches && (e.phase == .fetching || !ctx.cacheWarm)

/-- The number of producing tasks to issue now. -/
def missing (e : Execution) (ctx : Context) : Nat :=
  let n := e.target - e.finished - e.producing.length
  if e.throttled ctx then (if e.producing.isEmpty then min n 1 else 0) else n

/-- Issues whatever the state calls for. -/
def advance (e : Execution) (ctx : Context) : Execution × List Action :=
  if e.isTerminal then (e, [])
  else if e.failureLimit < e.failures then
    e.failWith (e.lastFailure.getD "too many producing tasks failed") ctx.now
  else if e.finalMerge.isSome then (e, [])
  else
    let (e, merges) := e.mergeWaiting
    if e.producingDone && e.merging.isEmpty then
      if e.reduced.isEmpty then e.failWith "no producing result to reduce" ctx.now
      else
        let (e, last) :=
          { e with phase := .finalReducing, reduced := [] }.startFinal { inputs := e.reduced }
        (e, merges ++ last)
    else
      let (e, starts) := e.startProducing (e.missing ctx)
      (e, merges ++ starts)

/-- Moves forward after a change, keeping the actions of the change in front. -/
def andAdvance (change : Execution × List Action) (ctx : Context) : Execution × List Action :=
  let (e, later) := change.1.advance ctx
  (e, change.2 ++ later)

/-- Issues the first producing tasks. -/
def start (e : Execution) (ctx : Context) : Execution × List Action := e.advance ctx

/-! ## Reports of success -/

/-- The resources of the session have reached a worker. -/
def leaveFetching (e : Execution) : Execution :=
  if e.phase = .fetching then { e with phase := .producing } else e

/-- A partial result waits for a merge only if it stands for something. -/
def keepReduced (e : Execution) (r : PartialResult) : Execution :=
  if 0 < r.weight then { e with reduced := e.reduced ++ [r] } else e

/-- Units that must be produced again. -/
def reproduce (e : Execution) (units : Nat) : Execution :=
  { e with target := e.target + units, overflowed := e.overflows [e.target + units] }

def addReducingTime (e : Execution) (elapsed : Nat) : Execution :=
  let reducing := e.times.reducing + Word.clamp elapsed
  { e with times := { e.times with reducing }, overflowed := e.overflows [reducing] }

/-- The weight of the group is summed up. -/
def weigh (e : Execution) (g : MergeGroup) : Execution :=
  { e with overflowed := e.overflows [g.weight] }

/-- The first success of a producing task tells how long such a task should take. -/
def adaptTimeout (e : Execution) (elapsed : Nat) : Execution × List Action :=
  if e.timeoutAdapted then (e, [])
  else
    let timeout := max (2 * elapsed) e.policy.minimumTimeout
    ({ e with timeoutAdapted := true, producingTimeout := timeout }, [.adjustTimeout timeout])

def producingFinished (e : Execution) (c : Completion) : Execution × List Action :=
  let time := e.times.producing + Word.clamp c.elapsed
  let e := { e with producing := e.producing.erase c.task,
                    times := { e.times with producing := time }, finished := e.finished + 1,
                    overflowed := e.overflows [time, e.finished + 1] }
  let e := e.leaveFetching
  let e := { e with unreduced := e.unreduced ++ [c.output 1] }
  e.adaptTimeout c.elapsed

/-- The result that a completed merge is credited with: what it states, up to what it was
given; all of it if it states nothing. -/
def creditedWeight (g : MergeGroup) (stated : Option Nat) : Nat :=
  min (stated.getD g.weight) g.weight

def mergeFinished (e : Execution) (c : Completion) (g : MergeGroup) : Execution :=
  let weight := creditedWeight g c.weight
  let e := ({ e with merging := e.merging.erase c.task }.addReducingTime c.elapsed).weigh g
  (e.keepReduced (c.output weight)).reproduce (g.weight - weight)

/-- The final merge of less than everything sends the execution back to producing. -/
def finalFinished (e : Execution) (c : Completion) (g : MergeGroup) (ctx : Context) :
    Execution × List Action :=
  let weight := creditedWeight g c.weight
  let e := ({ e with finalMerge := none }.addReducingTime c.elapsed).weigh g
  if weight = g.weight then e.finishWith (c.output weight) ctx.now
  else
    let e := (e.keepReduced (c.output weight)).reproduce (g.weight - weight)
    andAdvance ({ e with phase := .producing }, []) ctx

/-- The group of the outstanding final merge, if that is the named task. -/
def finalGroup? (e : Execution) (task : TaskName) : Option MergeGroup :=
  match e.finalMerge with
  | some (name, g) => if name = task then some g else none
  | none => none

/-- A task has finished on a worker. -/
def taskFinished (e : Execution) (c : Completion) (ctx : Context) : Execution × List Action :=
  if e.isTerminal then (e, [])
  else if c.task ∈ e.producing then andAdvance (e.producingFinished c) ctx
  else
    match e.merging.find? c.task with
    | some g => andAdvance (e.mergeFinished c g, []) ctx
    | none =>
      match e.finalGroup? c.task with
      | some g => e.finalFinished c g ctx
      | none => (e, [])

/-! ## Reports of failure -/

def producingFailed (e : Execution) (task : TaskName) : Execution :=
  { e with producing := e.producing.erase task, finished := e.finished + 1,
           failures := e.failures + 1,
           overflowed := e.overflows [e.finished + 1, e.failures + 1] }.reproduce 1

/-- A failed merge is tried again with the same inputs, or its units are produced again. -/
def mergeFailed (e : Execution) (task : TaskName) (g : MergeGroup) : Execution × List Action :=
  let g := { g with attempts := g.attempts + 1 }
  let e := { e with merging := e.merging.erase task, overflowed := e.overflows [g.attempts] }
  if g.attempts ≤ e.policy.reducingRetries then e.startIntermediate g
  else ((e.weigh g).reproduce g.weight, [])

def finalFailed (e : Execution) (g : MergeGroup) (reason : String) (ctx : Context) :
    Execution × List Action :=
  let g := { g with attempts := g.attempts + 1 }
  let e := { e with finalMerge := none, overflowed := e.overflows [g.attempts] }
  if g.attempts ≤ e.policy.reducingRetries then e.startFinal g
  else e.failWith reason ctx.now

def noteFailure (change : Execution × List Action) (reason : String) : Execution × List Action :=
  ({ change.1 with lastFailure := some reason }, change.2)

/-- A task has failed, by its worker's word or the coordinator's. -/
def taskFailed (e : Execution) (task : TaskName) (reason : String) (ctx : Context) :
    Execution × List Action :=
  if e.isTerminal then (e, [])
  else if task ∈ e.producing then
    andAdvance (noteFailure (e.producingFailed task, []) reason) ctx
  else
    match e.merging.find? task with
    | some g => andAdvance (noteFailure (e.mergeFailed task g) reason) ctx
    | none =>
      match e.finalGroup? task with
      | some g => e.finalFailed g reason ctx
      | none => (e, [])

/-! ## Fetched resources -/

/-- A worker has fetched the resources of the session for a producing task. -/
def fetchingFinished (e : Execution) (task : TaskName) (elapsed : Nat) (ctx : Context) :
    Execution × List Action :=
  if e.isTerminal || task ∉ e.producing then (e, [])
  else
    let fetching := e.times.fetching + Word.clamp elapsed
    { e with times := { e.times with fetching },
             overflowed := e.overflows [fetching] }.leaveFetching.advance ctx

/-! ## Calls -/

/-- A call on an execution, with all that its caller says. -/
inductive Call where
  | start (ctx : Context)
  | finish (c : Completion) (ctx : Context)
  | fail (task : TaskName) (reason : String) (ctx : Context)
  | fetched (task : TaskName) (elapsed : Nat) (ctx : Context)

def respond (e : Execution) : Call → Execution × List Action
  | .start ctx => e.start ctx
  | .finish c ctx => e.taskFinished c ctx
  | .fail task reason ctx => e.taskFailed task reason ctx
  | .fetched task elapsed ctx => e.fetchingFinished task elapsed ctx

/-- The answer to a call; there is none if the program stops at one of its sums. -/
def respond? (e : Execution) (call : Call) : Option (Execution × List Action) :=
  let answer := e.respond call
  if answer.1.overflowed then none else some answer

end Execution
end RenderFarm
