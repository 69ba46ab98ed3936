import RenderFarm.Text.Letter
import RenderFarm.Text.Pattern.Parser
import RenderFarm.Text.Split

/-!
# RenderFarm.Telemetry.Filter

Which records are logged. A filter is written as directives with commas between them, and after a
slash a pattern that the text of a record has to contain. A directive sets how much is logged: for
all targets, or for those that begin with its scope.

* `Filter.ofSpec` reads a filter, and tells what could not be read.
* `Filter.enabled`: the directive with the longest scope that fits decides.
-/

namespace RenderFarm

/-- How severe a record is, from the most severe on. -/
inductive Severity where
  | error
  | warn
  | info
  | debug
  | trace
  deriving DecidableEq, Repr

namespace Severity

def rank : Severity → Nat
  | error => 1
  | warn => 2
  | info => 3
  | debug => 4
  | trace => 5

def text : Severity → String
  | error => "ERROR"
  | warn => "WARN"
  | info => "INFO"
  | debug => "DEBUG"
  | trace => "TRACE"

def all : List Severity := [error, warn, info, debug, trace]

/-- The severity with this name, in letters of either case. -/
def ofText? (s : String) : Option Severity := all.find? fun v => Text.sameLetters v.text s

end Severity

namespace Telemetry

/-- How much is logged. -/
inductive Verbosity where
  | off
  /-- What is at least as severe. -/
  | upTo (s : Severity)
  deriving DecidableEq, Repr

namespace Verbosity

def rank : Verbosity → Nat
  | off => 0
  | upTo s => s.rank

def everything : Verbosity := upTo .trace

def allows (v : Verbosity) (s : Severity) : Bool := s.rank ≤ v.rank

def ofText? (s : String) : Option Verbosity :=
  if Text.sameLetters "OFF" s then some off else (Severity.ofText? s).map upTo

end Verbosity

structure Directive where
  /-- The beginning of the targets that are meant; if absent, all are. -/
  scope : Option String
  verbosity : Verbosity
  deriving DecidableEq, Repr

namespace Directive

def scopeText (d : Directive) : String := d.scope.getD ""

def covers (d : Directive) (target : String) : Bool :=
  d.scopeText.toList.isPrefixOf target.toList

end Directive

structure Filter where
  /-- By length of the scope. -/
  directives : List Directive
  pattern : Option Text.Pattern
  deriving DecidableEq, Repr

namespace Filter

/-- Whether records of this severity are logged for the target. -/
def enabled (f : Filter) (s : Severity) (target : String) : Bool :=
  match f.directives.reverse.find? fun d => d.covers target with
  | some d => d.verbosity.allows s
  | none => false

/-- Whether a text has what every logged text has to contain. -/
def accepts (f : Filter) (text : String) : Bool :=
  match f.pattern with
  | some p => p.occursIn text
  | none => true

end Filter

/-! ## Reading -/

/-- What is wrong with a part of a written filter. -/
inductive SpecFault where
  | slashes (spec : String)
  | directive (text : String)
  | pattern
  deriving DecidableEq, Repr

def SpecFault.message : SpecFault → String
  | slashes spec => "invalid logging spec '" ++ spec ++ "' (too many '/'s)"
  | directive text => "invalid logging spec '" ++ text ++ "'"
  | pattern => "invalid regex filter"

/-- A directive is a verbosity, a scope, or both with `=` between them. -/
def Directive.parse (part : List Char) : Except SpecFault Directive :=
  match Text.split '=' part with
  | [one] =>
    let one := String.ofList one
    match Verbosity.ofText? one with
    | some v => .ok ⟨none, v⟩
    | none => .ok ⟨some one, .everything⟩
  | [scope, level] =>
    let scope := String.ofList scope
    let level := String.ofList (Text.trim level)
    match level.isEmpty, Verbosity.ofText? level with
    | true, _ => .ok ⟨some scope, .everything⟩
    | false, some v => .ok ⟨some scope, v⟩
    | false, none => .error (.directive level)
  | _ => .error (.directive (String.ofList part))

/-- Adds a directive; an earlier one with the same scope is replaced where it stands. -/
def Directive.insert (d : Directive) : List Directive → List Directive
  | [] => [d]
  | d' :: ds => if d'.scope = d.scope then d :: ds else d' :: d.insert ds

namespace Filter

/-- A filter of the directives; without any, errors are logged. -/
def ofDirectives (ds : List Directive) (pattern : Option Text.Pattern) : Filter :=
  match ds.foldl (fun acc d => d.insert acc) [] with
  | [] => ⟨[⟨none, .upTo .error⟩], pattern⟩
  | ds =>
    ⟨ds.mergeSort fun a b => a.scopeText.utf8ByteSize ≤ b.scopeText.utf8ByteSize, pattern⟩

/-- The directives that can be read, and what is wrong with the others. -/
def readDirectives : List (List Char) → List Directive × List SpecFault
  | [] => ([], [])
  | part :: parts =>
    let (ds, faults) := readDirectives parts
    let part := Text.trim part
    if part.isEmpty then (ds, faults)
    else
      match Directive.parse part with
      | .ok d => (d :: ds, faults)
      | .error f => (ds, f :: faults)

/-- The pattern that a text writes, if there is one. -/
def readPattern : List (List Char) → Option Text.Pattern × List SpecFault
  | [] => (none, [])
  | text :: _ =>
    match Text.Pattern.parse? (String.ofList text) with
    | some p => (some p, [])
    | none => (none, [.pattern])

/-- Reads a filter; what cannot be read is left out. -/
def ofSpec (spec : String) : Filter × List SpecFault :=
  match Text.split '/' spec.toList with
  | directives :: rest =>
    if 2 ≤ rest.length then (ofDirectives [] none, [.slashes spec])
    else
      let (ds, faults) := readDirectives (Text.split ',' directives)
      let (pattern, more) := readPattern rest
      (ofDirectives ds pattern, faults ++ more)
  | [] => (ofDirectives [] none, [])

end Filter
end Telemetry
end RenderFarm
