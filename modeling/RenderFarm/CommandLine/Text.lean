import RenderFarm.CommandLine.Basic

/-!
# RenderFarm.CommandLine.Text

What the program writes about its arguments, and the code with which it ends.
-/

namespace RenderFarm
namespace CommandLine

/-- How a program ended: its code, and what it wrote on the two streams. -/
structure Ending where
  code : Nat
  output : String := ""
  errors : String := ""
  deriving DecidableEq, Repr

def versionText : String := "francine 0.1.0\n"

def masterSummary : String := "Start the coordinator that manages render workers"

def helpSummary : String := "Print this message or the help of the given subcommand(s)"

/-- How a command is used. -/
def usage : Topic → String
  | .program => "Usage: francine <COMMAND>\n"
  | .master => "Usage: francine master [OPTIONS]\n"
  | .help => "Usage: francine help [COMMAND]...\n"

def helpText : Topic → String
  | .program => usage .program ++
    "\nCommands:\n" ++
    "  master  " ++ masterSummary ++ "\n" ++
    "  help    " ++ helpSummary ++ "\n" ++
    "\nOptions:\n" ++
    "  -h, --help     Print help\n" ++
    "  -V, --version  Print version\n"
  | .master => masterSummary ++ "\n\n" ++ usage .master ++
    "\nOptions:\n" ++
    "      --config <CONFIG>  The path to a TOML configuration file\n" ++
    "  -h, --help             Print help\n"
  | .help => helpSummary ++ "\n\n" ++ usage .help ++
    "\nArguments:\n" ++
    "  [COMMAND]...  Print help for the subcommand(s)\n"

namespace Fault

def message : Fault → String
  | noCommand => "'francine' requires a subcommand but one was not provided"
  | unknownCommand _ text => "unrecognized subcommand '" ++ text ++ "'"
  | unexpected _ text => "unexpected argument '" ++ text ++ "' found"
  | unwantedValue _ option value =>
    "unexpected value '" ++ value ++ "' for '" ++ option ++ "' found; no more were expected"
  | noFile => "a value is required for '--config <CONFIG>' but none was supplied"
  | repeatedFile => "the argument '--config <CONFIG>' cannot be used multiple times"

/-- The usage that is shown with the fault, if it says more than the message. -/
def usage : Fault → String
  | unknownCommand t _ | unexpected t _ | unwantedValue t _ _ => "\n" ++ CommandLine.usage t
  | repeatedFile => "\n" ++ CommandLine.usage .master
  | noCommand | noFile => ""

/-- How the program ends at the fault; without a command it shows its help. -/
def ending (f : Fault) : Ending where
  code := 2
  errors :=
    if f = noCommand then helpText .program
    else "error: " ++ f.message ++ "\n" ++ f.usage ++ "\nFor more information, try '--help'.\n"

end Fault

/-- How the program ends when it only has to tell something. -/
def Invocation.ending? : Invocation → Option Ending
  | .help t => some { code := 0, output := helpText t }
  | .version => some { code := 0, output := versionText }
  | .master _ => none

end CommandLine
end RenderFarm
