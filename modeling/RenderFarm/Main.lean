import RenderFarm.Rehearsal
import RenderFarm.Service
import RenderFarm.Json.Printer

/-!
# RenderFarm.Main

The program. `master` takes the configuration from the named file and from the environment, and
serves the requests that arrive on standard input as those of one connection; the end of the input
interrupts it.
-/

namespace RenderFarm
namespace Program

/-- The variables of the environment. -/
def environment : IO (List (String × String)) := do
  let bytes ← IO.FS.readBinFile "/proc/self/environ"
  return (Text.split 0 bytes.toList).filterMap fun entry =>
    let name := entry.takeWhile (· ≠ 61)
    match String.fromUTF8? ⟨name.toArray⟩,
        String.fromUTF8? ⟨(entry.drop (name.length + 1)).toArray⟩ with
    | some name, some value => some (name, value)
    | _, _ => none

/-- The contents of the file, if one is named. -/
def readSettings : Option String → IO Config.File
  | none => return .unnamed
  | some path => do
    match (← (IO.FS.readFile path).toBaseIO) with
    | .ok text => return .text text
    | .error _ => return .unreadable

def writeLines (out : IO.FS.Stream) (lines : List String) : IO Unit :=
  lines.forM out.putStrLn

/-- Answers the requests line by line until the input ends. -/
partial def serve (input output : IO.FS.Stream) (r : Rehearsal) : IO Unit := do
  let line ← input.getLine
  if line.isEmpty then return ()
  match r.connect line.toUTF8.toList with
  | none => return ()
  | some (responses, r) =>
    writeLines output (responses.map fun response => response.toJson.render)
    output.flush
    serve input output r

/-- Runs the coordinator until the input ends. -/
def runMaster (c : Config) (s : Settings) (spec : Option String) : IO Unit := do
  let errors ← IO.getStderr
  match Telemetry.absent.start spec Service.kind with
  | .error f => errors.putStrLn f.message
  | .ok (log, lines) =>
    writeLines errors lines
    writeLines errors (Service.opening log c s.listenPort)
    serve (← IO.getStdin) (← IO.getStdout)
      (Rehearsal.start s c.cluster.workers s.listenPort true)
    writeLines errors (Service.closing log)

def finish (e : CommandLine.Ending) : IO UInt32 := do
  (← IO.getStdout).putStr e.output
  (← IO.getStderr).putStr e.errors
  return UInt32.ofNat e.code

def run (args : List String) : IO UInt32 := do
  match CommandLine.Invocation.parse args with
  | .error f => finish f.ending
  | .ok (.master path) =>
    match Config.load (← readSettings path) (← environment) with
    | .error f => finish (Service.refusal f)
    | .ok c =>
      match Settings.ofConfig c with
      | .error f => finish (Service.refusal (.rule f))
      | .ok s =>
        runMaster c s (← IO.getEnv "RUST_LOG")
        return 0
  | .ok i =>
    match i.ending? with
    | some e => finish e
    | none => return 0

end Program
end RenderFarm

def main (args : List String) : IO UInt32 := RenderFarm.Program.run args
