import RenderFarm.Text.Blank
import RenderFarm.Text.Letter
import RenderFarm.Text.Split
import RenderFarm.Toml.Number
import RenderFarm.Word

/-!
# RenderFarm.Config.Environment

Settings from environment variables. The name of a variable, after a prefix, is a path of keys with
two underscores between them, in letters of either case. Its value is a number, a truth value, a
quoted text, a list in brackets, a table in braces, or else a text as it stands.
-/

namespace RenderFarm
namespace Config
namespace Environment

open Toml (Scan)

/-! ## Values -/

def isSpace (c : Char) : Bool := c = ' ' || c = '\t' || c = '\n' || c = '\x0c' || c = '\r'

def skipSpace (cs : List Char) : List Char := cs.dropWhile isSpace

/-- Characters that end a value without quotes. -/
def isSeparator (c : Char) : Bool :=
  c = ',' || c = '\x7b' || c = '\x7d' || c = '[' || c = ']'

def isKeyChar (c : Char) : Bool :=
  Text.isAlphanumeric c || c = '_' || c = '-'

/-- The natural number that the digits write; there must be one digit at least. -/
def natural? (cs : List Char) : Option Nat :=
  if cs.isEmpty || !cs.all Text.isDigit then none
  else some (cs.foldl (fun n c => n * 10 + (c.toNat - 48)) 0)

/-- An integer that fits 64 bits, without a sign if it is positive. -/
def integer? (cs : List Char) : Option Int :=
  let signed := cs.head? = some '-'
  let digits := if cs.head? = some '-' || cs.head? = some '+' then cs.tail else cs
  match natural? digits with
  | none => none
  | some n =>
    if signed then (if n ≤ Word.half then some (-(n : Int)) else none)
    else if n < Word.size then some n else none

/-- A double that is written with a point. -/
def float? (cs : List Char) : Option Float :=
  let (negative, cs) := Toml.sign cs
  let whole := cs.takeWhile Text.isDigit
  match cs.dropWhile Text.isDigit with
  | '.' :: cs =>
    let frac := cs.takeWhile Text.isDigit
    let rest := cs.dropWhile Text.isDigit
    let exponent : Option Int :=
      match rest with
      | [] => some 0
      | c :: rest =>
        if c = 'e' || c = 'E' then
          let (negative, rest) := Toml.sign rest
          (natural? rest).map fun n => if negative then -(n : Int) else n
        else none
    match natural? (whole ++ frac), exponent with
    | some m, some e =>
      let x := Toml.nearest m (e - frac.length)
      some (if negative then -x else x)
    | _, _ => none
  | _ => none

/-- A value without quotes, brackets or braces. -/
def bare (cs : List Char) : Tree :=
  let cs := Text.trim cs
  match float? cs with
  | some x => .float x
  | none =>
    match integer? cs with
    | some n => .int n
    | none => .text (String.ofList cs)

/-- A text in quotes, after the opening one. `fuel` exceeds the length of the text. -/
def quoted (cs : List Char) : Scan String :=
  (Toml.basicLine (cs.length + 1) cs).map fun r => (String.ofList r.1, r.2)

def key : List Char → Scan String
  | '"' :: cs => quoted cs
  | cs =>
    let name := cs.takeWhile isKeyChar
    if name.isEmpty then none else some (String.ofList name, cs.dropWhile isKeyChar)

/-- The text after a word. -/
def word? : List Char → List Char → Option (List Char)
  | [], cs => some cs
  | _ :: _, [] => none
  | w :: ws, c :: cs => if w = c then word? ws cs else none

mutual

/-- One value with the space around it. `fuel` exceeds the length of the text. -/
def value : (fuel : Nat) → List Char → Scan Tree
  | 0, _ => none
  | fuel + 1, cs =>
    let cs := skipSpace cs
    let found : Scan Tree :=
      match word? "true".toList cs, word? "false".toList cs with
      | some rest, _ => some (.bool true, rest)
      | none, some rest => some (.bool false, rest)
      | none, none =>
        match cs with
        | '\x7b' :: cs => (entries fuel cs).map fun r => (.table (Fields.ofList r.1), r.2)
        | '[' :: cs => (items fuel cs).map fun r => (.array r.1, r.2)
        | '"' :: cs => (quoted cs).map fun r => (.text r.1, r.2)
        | '\'' :: c :: '\'' :: rest => some (.letter c, rest)
        | '\'' :: _ => none
        | cs =>
          some (bare (cs.takeWhile fun c => !isSeparator c), cs.dropWhile fun c => !isSeparator c)
    found.map fun r => (r.1, skipSpace r.2)

/-- The items of a list up to its closing bracket; a comma may follow the last one. -/
def items : (fuel : Nat) → List Char → Scan (List Tree)
  | 0, _ => none
  | fuel + 1, cs =>
    match cs with
    | ']' :: rest => some ([], rest)
    | cs =>
      match value fuel cs with
      | none => none
      | some (t, ',' :: cs) => (items fuel cs).map fun r => (t :: r.1, r.2)
      | some (t, ']' :: rest) => some ([t], rest)
      | some _ => none

/-- The entries of a table up to its closing brace; a comma may follow the last one. -/
def entries : (fuel : Nat) → List Char → Scan (List (String × Tree))
  | 0, _ => none
  | fuel + 1, cs =>
    match cs with
    | '\x7d' :: rest => some ([], rest)
    | cs =>
      match key (skipSpace cs) with
      | none => none
      | some (k, cs) =>
        match skipSpace cs with
        | '=' :: cs =>
          match value fuel (skipSpace cs) with
          | none => none
          | some (t, ',' :: cs) => (entries fuel cs).map fun r => ((k, t) :: r.1, r.2)
          | some (t, '\x7d' :: rest) => some ([(k, t)], rest)
          | some _ => none
        | _ => none

end

/-- The value of a variable; what is not of any other form is a text. -/
def valueOf (text : String) : Tree :=
  let cs := text.toList
  match value (2 * cs.length + 2) cs with
  | some (t, []) => t
  | _ => .text text

/-! ## Names -/

/-- The text after `mark`, whatever the case of its letters. -/
def afterMark? : List Char → List Char → Option (List Char)
  | [], cs => some cs
  | _ :: _, [] => none
  | m :: ms, c :: cs => if Text.lower m = Text.lower c then afterMark? ms cs else none

/-- Puts a point in the place of every two underscores. -/
def pointed : List Char → List Char
  | '_' :: '_' :: cs => '.' :: pointed cs
  | c :: cs => c :: pointed cs
  | [] => []

/-- The path of keys that the variable sets, if its name begins with `mark` and names one. -/
def path? (mark name : String) : Option (List String) :=
  match afterMark? mark.toList (Text.trim name.toList) with
  | none => none
  | some rest =>
    let ps := Text.split '.' (Text.trim (pointed rest))
    if ps.any List.isEmpty then none else some (ps.map fun p => String.ofList (p.map Text.lower))

/-- The settings in the variables; of two that set the same, the later one counts. -/
def tree (mark : String) (vars : List (String × String)) : Tree :=
  vars.foldl (fun t v =>
    match path? mark v.1 with
    | some path => t.overlay (.nest path (valueOf v.2))
    | none => t) (.table [])

end Environment
end Config
end RenderFarm
