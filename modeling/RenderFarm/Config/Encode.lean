import RenderFarm.Config.Basic
import RenderFarm.Config.Tree
import RenderFarm.Wire.Encode

/-!
# RenderFarm.Config.Encode

A configuration as a tree of settings, and as JSON. A tree leaves out an external port that is not
set; JSON has null in its place.
-/

namespace RenderFarm
namespace Config

/-- A setting that may be left out. -/
inductive Setting where
  | text (s : String)
  | number (n : Nat)
  | float (x : Float)
  | bool (b : Bool)
  | absent
  | list (items : List (List (String × Setting)))
  | group (entries : List (String × Setting))

mutual

def Setting.toJson : Setting → Json
  | .text s => .str s
  | .number n => .int n
  | .float x => .float x
  | .bool b => .bool b
  | .absent => .null
  | .list items => .arr (itemsJson items)
  | .group entries => .ofFields (entriesJson entries)

def entriesJson : List (String × Setting) → List (String × Json)
  | [] => []
  | (k, s) :: es => (k, s.toJson) :: entriesJson es

def itemsJson : List (List (String × Setting)) → List Json
  | [] => []
  | es :: rest => .ofFields (entriesJson es) :: itemsJson rest

end

mutual

def Setting.toTree? : Setting → Option Tree
  | .text s => some (.text s)
  | .number n => some (.int n)
  | .float x => some (.float x)
  | .bool b => some (.bool b)
  | .absent => none
  | .list items => some (.array (itemTrees items))
  | .group entries => some (.table (Fields.ofList (entryTrees entries)))

def entryTrees : List (String × Setting) → List (String × Tree)
  | [] => []
  | (k, s) :: es =>
    match s.toTree? with
    | some t => (k, t) :: entryTrees es
    | none => entryTrees es

def itemTrees : List (List (String × Setting)) → List Tree
  | [] => []
  | es :: rest => .table (Fields.ofList (entryTrees es)) :: itemTrees rest

end

def workerSettings (w : Worker) : List (String × Setting) :=
  [("name", .text w.name.text), ("host", .text w.host), ("port", .number w.port),
    ("resource_port", .number w.resourcePort)]

def RetrySection.setting : RetrySection → Setting
  | .fixed n delay => .group [("fixed", .group [("max_count", .number n),
      ("delay_secs", .number delay)])]
  | .exponentialBackoff n initial limit factor =>
    .group [("exponential_backoff", .group [("max_count", .number n),
      ("initial_delay_secs", .number initial), ("max_delay_secs", .number limit),
      ("factor", .number factor)])]

def setting (c : Config) : Setting :=
  .group [
    ("coordinator", .group [("listen_host", .text c.coordinator.listenHost),
      ("listen_port", .number c.coordinator.listenPort),
      ("external_host", .text c.coordinator.externalHost),
      ("external_port", match c.coordinator.externalPort with
        | some n => .number n
        | none => .absent)]),
    ("cluster", .group [("manage_interval_secs", .number c.cluster.manageIntervalSecs),
      ("waiting_pong_timeout", .number c.cluster.waitingPongTimeout),
      ("destroy_zombies", .bool c.cluster.destroyZombies),
      ("workers", .list (c.cluster.workers.map workerSettings))]),
    ("scheduler", .group [("prioritize_reducing", .bool c.scheduler.prioritizeReducing)]),
    ("execution", .group [("task_timeout_secs", .number c.execution.taskTimeoutSecs),
      ("task_min_timeout_secs", .number c.execution.taskMinTimeoutSecs),
      ("reducing_max_retries", .number c.execution.reducingMaxRetries),
      ("producing_fail_ratio", .float c.execution.producingFailRatio)]),
    ("rpc", .group [("connect_timeout_secs", .number c.calls.connectTimeoutSecs),
      ("request_timeout_secs", .number c.calls.requestTimeoutSecs),
      ("retry_strategy", c.calls.retryStrategy.setting)]),
    ("telemetry", .group [("trace_to_console", .bool c.telemetry.traceToConsole)])]

def toJson (c : Config) : Json := c.setting.toJson

def toTree (c : Config) : Tree := (c.setting.toTree?).getD (.table [])

end Config
end RenderFarm
