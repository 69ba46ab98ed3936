import RenderFarm.Config.Decode
import RenderFarm.Config.Encode
import RenderFarm.Config.Environment
import RenderFarm.Retry
import RenderFarm.Toml.Parser

/-!
# RenderFarm.Config.Load

A configuration from all its sources: what holds by default, a file that overrides it, and
environment variables that override both.
-/

namespace RenderFarm
namespace Config

inductive File where
  | unnamed
  /-- The file cannot be read. -/
  | unreadable
  | text (s : String)

/-- Why there is no configuration. -/
inductive LoadFault where
  /-- The file cannot be read, or is not TOML. -/
  | file
  | misfit (fault : Fault)
  | rule (fault : ConfigFault)
  deriving DecidableEq, Repr

/-- The names of variables that hold settings begin with this. -/
def variablePrefix : String := "FRANCINE__"

/-- The defaults with the settings of the file. -/
def withFile (f : File) : Option Tree :=
  match f with
  | .unnamed => some standard.toTree
  | .unreadable => none
  | .text s => (Toml.parse? s).map standard.toTree.overlay

/-- The configuration, if it is one that may be used. -/
def load (f : File) (vars : List (String × String)) : Except LoadFault Config :=
  match withFile f with
  | none => .error .file
  | some t =>
    match Decode.config (t.extend (Environment.tree variablePrefix vars)) with
    | .error fault => .error (.misfit fault)
    | .ok c =>
      match c.validate with
      | .error fault => .error (.rule fault)
      | .ok () => .ok c

end Config

/-- The strategy that a configuration asks for. -/
def Config.RetrySection.strategy : Config.RetrySection → RetryStrategy
  | .fixed n delay => .fixed n (seconds delay)
  | .exponentialBackoff n initial limit factor =>
    .exponentialBackoff n (seconds initial) (seconds limit) factor

end RenderFarm
