/-!
# RenderFarm.CommandLine.Basic

What the arguments of the program ask for. There is one command, `master`, besides `help`; options
may be written `--name value` or `--name=value`.

* `Invocation.parse` reads the arguments, and stops at the first that cannot be understood.
-/

namespace RenderFarm
namespace CommandLine

/-- What can be helped with. -/
inductive Topic where
  | program
  | master
  | help
  deriving DecidableEq, Repr

inductive Invocation where
  | help (topic : Topic)
  | version
  /-- Start the coordinator, with the settings in the file if one is named. -/
  | master (file : Option String)
  deriving DecidableEq, Repr

/-- What is wrong with the arguments. -/
inductive Fault where
  | noCommand
  | unknownCommand (topic : Topic) (text : String)
  | unexpected (topic : Topic) (text : String)
  /-- A value for an option that takes none. -/
  | unwantedValue (topic : Topic) (option value : String)
  | noFile
  | repeatedFile
  deriving DecidableEq, Repr

/-! ## The form of an argument -/

inductive Argument where
  /-- Two hyphens; what follows is no option. -/
  | dashes
  | long (name : String) (value : Option String)
  /-- One hyphen and letters; the first of them decides. -/
  | short (letter : Char)
  | plain (text : String)
  deriving DecidableEq, Repr

/-- The name of an option and the value after the equals sign, if there is one. -/
def longOption (cs : List Char) : Argument :=
  let name := String.ofList (cs.takeWhile (· ≠ '='))
  match cs.dropWhile (· ≠ '=') with
  | [] => .long name none
  | _ :: value => .long name (some (String.ofList value))

def Argument.ofText (s : String) : Argument :=
  match s.toList with
  | ['-', '-'] => .dashes
  | '-' :: '-' :: cs => longOption cs
  | '-' :: c :: _ => .short c
  | _ => .plain s

/-- An option as it is named in messages. -/
def longText (name : String) : String := "--" ++ name

def shortText (letter : Char) : String := String.ofList ['-', letter]

/-! ## The arguments of `master` -/

/-- The option with the file, as far as it is read. -/
structure FileOption where
  file : Option String := none
  /-- An occurrence that is not yet checked: its value, if that has been read. -/
  unchecked : Option (Option String) := none
  deriving DecidableEq, Repr

namespace FileOption

/-- Checks the latest occurrence. -/
def check (o : FileOption) : Except Fault FileOption :=
  match o.unchecked with
  | none => .ok o
  | some none => .error .noFile
  | some (some v) =>
    if o.file.isSome then .error .repeatedFile
    else if v.isEmpty then .error .noFile
    else .ok { file := some v }

end FileOption

/-- Reads the arguments after `master`. What is unexpected is told before faults of the option in
front of it. -/
def parseMaster (o : FileOption) : List String → Except Fault Invocation
  | [] => o.check.map fun o => .master o.file
  | a :: rest =>
    match Argument.ofText a with
    | .dashes =>
      match rest with
      | [] => o.check.map fun o => .master o.file
      | b :: _ => .error (.unexpected .master b)
    | .long "config" none =>
      match o.check with
      | .ok o => parseMaster { o with unchecked := some none } rest
      | .error f => .error f
    | .long "config" (some v) =>
      match o.check with
      | .ok o =>
        match { o with unchecked := some (some v) : FileOption }.check with
        | .ok o => parseMaster o rest
        | .error f => .error f
      | .error f => .error f
    | .long "help" none => o.check.map fun _ => .help .master
    | .long "help" (some v) => .error (.unwantedValue .master "--help" v)
    | .long name _ => .error (.unexpected .master (longText name))
    | .short 'h' => o.check.map fun _ => .help .master
    | .short c => .error (.unexpected .master (shortText c))
    | .plain text =>
      if o.unchecked = some none then parseMaster { o with unchecked := some (some text) } rest
      else .error (.unexpected .master text)

/-! ## All arguments -/

/-- Reads the arguments after `help`: the commands on the way to the topic. -/
def parseHelp : List String → Except Fault Invocation
  | [] => .ok (.help .program)
  | ["master"] => .ok (.help .master)
  | ["help"] => .ok (.help .help)
  | "master" :: a :: _ => .error (.unknownCommand .master a)
  | "help" :: a :: _ => .error (.unknownCommand .help a)
  | a :: _ => .error (.unknownCommand .program a)

/-- Reads the arguments after two hyphens, where a command is out of place. -/
def parseRest : List String → Except Fault Invocation
  | [] => .error .noCommand
  | a :: _ =>
    if a = "master" || a = "help" then .error (.unexpected .program a)
    else .error (.unknownCommand .program a)

/-- Reads the arguments of the program. -/
def Invocation.parse : List String → Except Fault Invocation
  | [] => .error .noCommand
  | "master" :: rest => parseMaster {} rest
  | "help" :: rest => parseHelp rest
  | a :: rest =>
    match Argument.ofText a with
    | .dashes => parseRest rest
    | .long "help" none => .ok (.help .program)
    | .long "version" none => .ok .version
    | .long name value =>
      match value with
      | some v =>
        if name = "help" || name = "version" then
          .error (.unwantedValue .program (longText name) v)
        else .error (.unexpected .program (longText name))
      | none => .error (.unexpected .program (longText name))
    | .short 'h' => .ok (.help .program)
    | .short 'V' => .ok .version
    | .short c => .error (.unexpected .program (shortText c))
    | .plain text => .error (.unknownCommand .program text)

end CommandLine
end RenderFarm
