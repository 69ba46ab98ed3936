import RenderFarm.Failure
import RenderFarm.Telemetry.Filter

/-!
# RenderFarm.Telemetry.Basic

The log of a process. It is started once, writes the records that its filter lets through, and
after its end is not started again. What is written goes on after the end, as long as the process
does.
-/

namespace RenderFarm

/-- Something to log; the target says which part of the program speaks. -/
structure LogRecord where
  severity : Severity
  target : String
  text : String
  deriving DecidableEq, Repr

/-- The record as it is written, without the time. -/
def LogRecord.line (r : LogRecord) : String :=
  "[" ++ r.severity.text ++ " " ++ r.target ++ "] " ++ r.text

inductive Telemetry where
  | absent
  | running (filter : Telemetry.Filter)
  | finished (filter : Telemetry.Filter)
  deriving DecidableEq, Repr

namespace Telemetry

def filter? : Telemetry → Option Filter
  | absent => none
  | running f | finished f => some f

def enabled (t : Telemetry) (s : Severity) (target : String) : Bool :=
  t.filter?.any fun f => f.enabled s target

/-- What is written for the record. -/
def write (t : Telemetry) (r : LogRecord) : List String :=
  match t.filter? with
  | some f => if f.enabled r.severity r.target && f.accepts r.text then [r.line] else []
  | none => []

/-- The filter of a process that is not told any. -/
def standardSpec : String := "info"

/-- What is written about a part of the filter that could not be read. -/
def complaint (f : SpecFault) : String := "warning: " ++ f.message ++ ", ignoring it"

def ownRecord (text : String) : LogRecord := ⟨.debug, "francine_telemetry::telemetry", text⟩

/-- Starts the log of a process of the given kind; tells what is written at that. -/
def start (t : Telemetry) (spec : Option String) (kind : String) :
    Except InternalFault (Telemetry × List String) :=
  match t with
  | absent =>
    let (f, faults) := Filter.ofSpec (spec.getD standardSpec)
    .ok (running f, faults.map complaint ++
      (running f).write (ownRecord ("telemetry initialized for " ++ kind)))
  | running _ => .error .logStarted
  | finished _ => .error .logFinished

/-- Ends the log, if it was started; tells what is written at that. -/
def finish (t : Telemetry) : Telemetry × List String :=
  let lines := t.write (ownRecord "shutting down telemetry...")
  match t with
  | running f => (finished f, lines)
  | t => (t, lines)

end Telemetry
end RenderFarm
