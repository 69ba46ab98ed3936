import RenderFarm.Decimal.Style
import RenderFarm.Failure
import RenderFarm.Worker

/-!
# RenderFarm.Config.Basic

What an operator configures, the rules that a configuration keeps, and the settings that the
coordinator takes from it.
-/

namespace RenderFarm

namespace Config

structure CoordinatorSection where
  listenHost : String
  listenPort : Nat
  /-- The host that workers use to reach the coordinator. -/
  externalHost : String
  /-- The port that workers use to reach the coordinator, if it differs. -/
  externalPort : Option Nat
  deriving DecidableEq, Repr

structure ClusterSection where
  manageIntervalSecs : Nat
  /-- The number of unanswered pings after which a worker is condemned. -/
  waitingPongTimeout : Nat
  /-- Condemned workers are destroyed. -/
  destroyZombies : Bool
  workers : List Worker
  deriving DecidableEq, Repr

structure SchedulerSection where
  /-- Merges are queued ahead of producing tasks. -/
  prioritizeReducing : Bool
  deriving DecidableEq, Repr

structure ExecutionSection where
  taskTimeoutSecs : Nat
  taskMinTimeoutSecs : Nat
  reducingMaxRetries : Nat
  producingFailRatio : Float
  deriving DecidableEq, Repr

inductive RetrySection where
  | fixed (maxCount delaySecs : Nat)
  | exponentialBackoff (maxCount initialDelaySecs maxDelaySecs factor : Nat)
  deriving DecidableEq, Repr

structure CallSection where
  connectTimeoutSecs : Nat
  requestTimeoutSecs : Nat
  retryStrategy : RetrySection
  deriving DecidableEq, Repr

structure TelemetrySection where
  traceToConsole : Bool
  deriving DecidableEq, Repr

end Config

structure Config where
  coordinator : Config.CoordinatorSection
  cluster : Config.ClusterSection
  scheduler : Config.SchedulerSection
  execution : Config.ExecutionSection
  calls : Config.CallSection
  telemetry : Config.TelemetrySection
  deriving DecidableEq, Repr

namespace Config

/-- What holds where the operator says nothing. -/
def standard : Config where
  coordinator := ⟨"0.0.0.0", 5000, "127.0.0.1", none⟩
  cluster := ⟨15, 4, true, []⟩
  scheduler := ⟨true⟩
  execution := ⟨300, 1, 3, 0.1⟩
  calls := ⟨5, 10, .fixed 3 1⟩
  telemetry := ⟨false⟩

/-- The rules of a configuration, in the order in which they are checked. -/
def validate (c : Config) : Except ConfigFault Unit :=
  if c.cluster.manageIntervalSecs = 0 then
    .error (.invalid "cluster manage interval must be positive")
  else if c.cluster.waitingPongTimeout = 0 then
    .error (.invalid "cluster waiting pong timeout must be positive")
  else if c.execution.taskTimeoutSecs = 0 then .error (.invalid "task timeout must be positive")
  else if !(0.0 ≤ c.execution.producingFailRatio && c.execution.producingFailRatio ≤ 1.0) then
    .error (.invalid ("producing fail ratio must be between 0 and 1: " ++
      Decimal.prose.render c.execution.producingFailRatio))
  else if c.cluster.workers.any fun w => w.name.text.isEmpty then
    .error (.missing "static worker name")
  else .ok ()

end Config

/-- What the coordinator is told; times are in milliseconds. -/
structure Settings where
  listenHost : String
  listenPort : Nat
  externalHost : String
  externalPort : Option Nat
  manageInterval : Nat
  waitingPongTimeout : Nat
  destroyZombies : Bool
  prioritizeReducing : Bool
  taskTimeout : Nat
  taskMinTimeout : Nat
  reducingMaxRetries : Nat
  producingFailRatio : Float
  deriving DecidableEq, Repr

/-- Seconds in milliseconds. -/
def seconds (n : Nat) : Nat := n * 1000

/-- The settings of a valid configuration. -/
def Settings.ofConfig (c : Config) : Except ConfigFault Settings :=
  match c.validate with
  | .error f => .error f
  | .ok () => .ok
    { listenHost := c.coordinator.listenHost
      listenPort := c.coordinator.listenPort
      externalHost := c.coordinator.externalHost
      externalPort := c.coordinator.externalPort
      manageInterval := seconds c.cluster.manageIntervalSecs
      waitingPongTimeout := c.cluster.waitingPongTimeout
      destroyZombies := c.cluster.destroyZombies
      prioritizeReducing := c.scheduler.prioritizeReducing
      taskTimeout := seconds c.execution.taskTimeoutSecs
      taskMinTimeout := seconds c.execution.taskMinTimeoutSecs
      reducingMaxRetries := c.execution.reducingMaxRetries
      producingFailRatio := c.execution.producingFailRatio }

end RenderFarm
