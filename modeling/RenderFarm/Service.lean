import RenderFarm.CommandLine.Text
import RenderFarm.Config.Load
import RenderFarm.Telemetry.Basic
import RenderFarm.Text.Quoted

/-!
# RenderFarm.Service

The coordinator as a program that runs until it is interrupted: what it logs on the way, and how it
ends if it cannot start.
-/

namespace RenderFarm
namespace Service

/-! ## Records -/

def startedRecord (workers : Nat) : LogRecord :=
  ⟨.info, "francine_execution::coordinator::entrypoint",
    "coordinator started with " ++ toString workers ++ " static worker(s)"⟩

def readyRecord (port : Nat) : LogRecord :=
  ⟨.info, "francine_execution::coordinator::actor::handler",
    "coordinator server is ready on port " ++ toString port⟩

def interruptedRecord : LogRecord :=
  ⟨.info, "francine_execution::coordinator::entrypoint", "shutting down the coordinator"⟩

def stoppedRecord : LogRecord :=
  ⟨.info, "francine_execution::coordinator::actor::rpc", "coordinator server stopped"⟩

/-- The kind of this process in its log. -/
def kind : String := "master"

/-- What is written by a log that is already started, before the first request. -/
def opening (t : Telemetry) (c : Config) (port : Nat) : List String :=
  t.write (startedRecord c.cluster.workers.length) ++ t.write (readyRecord port)

/-- What is written from the interruption on. -/
def closing (t : Telemetry) : List String :=
  t.write interruptedRecord ++ t.write stoppedRecord ++ t.finish.2

/-! ## Without a start -/

def mismatchText : Config.Mismatch → String
  | .wrongType => "wrong type"
  | .wrongValue => "wrong value"
  | .wrongLength => "wrong length"
  | .missingKey => "missing key"
  | .unknownVariant => "unknown variant"

/-- The fault as the program names it. -/
def faultText : Config.LoadFault → String
  | .file => "InvalidConfig(" ++ Text.quote "file cannot be read" ++ ")"
  | .misfit f =>
    "InvalidConfig(" ++ Text.quote (mismatchText f.mismatch ++ " at " ++ ".".intercalate f.path) ++
      ")"
  | .rule (.invalid text) => "InvalidArgument(" ++ Text.quote text ++ ")"
  | .rule (.missing text) => "MissingArgument(" ++ Text.quote text ++ ")"

/-- How the program ends without a configuration. -/
def refusal (f : Config.LoadFault) : CommandLine.Ending where
  code := 1
  errors := "Error: " ++ faultText f ++ "\n"

end Service
end RenderFarm
