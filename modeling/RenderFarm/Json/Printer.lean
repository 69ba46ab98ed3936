import RenderFarm.Json.Fault
import RenderFarm.Json.Basic

/-!
# RenderFarm.Json.Printer

The text of a JSON value, without blanks. Control characters, quotes and backslashes of a string
are escaped; all other characters stand for themselves.
-/

namespace RenderFarm
namespace Json

/-- The digit of a number below 16. -/
def hexDigit (n : Nat) : Char := if n < 10 then Char.ofNat (48 + n) else Char.ofNat (87 + n)

def escapeChar (c : Char) : List Char :=
  if c = '"' then ['\\', '"']
  else if c = '\\' then ['\\', '\\']
  else if c = '\x08' then ['\\', 'b']
  else if c = '\x0c' then ['\\', 'f']
  else if c = '\n' then ['\\', 'n']
  else if c = '\r' then ['\\', 'r']
  else if c = '\t' then ['\\', 't']
  else if c.toNat < 0x20 then
    ['\\', 'u', '0', '0', hexDigit (c.toNat / 16), hexDigit (c.toNat % 16)]
  else [c]

def renderString (s : String) : String :=
  "\"" ++ String.ofList (s.toList.flatMap escapeChar) ++ "\""

mutual

/-- The text of a value; a double that is no number is written as null. -/
def render : Json → String
  | .null => "null"
  | .bool b => toString b
  | .int n => toString n
  | .float x => if x.isFinite then numberStyle.render x else "null"
  | .str s => renderString s
  | .arr items => "[" ++ renderItems items ++ "]"
  | .obj fields => "\x7b" ++ renderFields fields ++ "\x7d"

def renderItems : List Json → String
  | [] => ""
  | [j] => render j
  | j :: js => render j ++ "," ++ renderItems js

def renderFields : List (String × Json) → String
  | [] => ""
  | [(k, j)] => renderString k ++ ":" ++ render j
  | (k, j) :: fs => renderString k ++ ":" ++ render j ++ "," ++ renderFields fs

end

end Json
end RenderFarm
