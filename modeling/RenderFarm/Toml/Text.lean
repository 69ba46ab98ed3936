import RenderFarm.Text.Letter

/-!
# RenderFarm.Toml.Text

The texts of a TOML document: blanks, comments and the four kinds of strings. Each scanner takes
what it reads from the front and gives the rest, or nothing if the document is not well-formed
there.
-/

namespace RenderFarm
namespace Toml

open Text (digitValue?)

/-- What a scanner read, and the rest. -/
abbrev Scan (α : Type) : Type := Option (α × List Char)

/-- Characters that may stand in a comment: all but the controls, and the tab. -/
def isPlain (c : Char) : Bool := c = '\t' || (0x20 ≤ c.toNat && c.toNat ≠ 0x7F)

def isBlank (c : Char) : Bool := c = ' ' || c = '\t'

def skipBlanks (cs : List Char) : List Char := cs.dropWhile isBlank

/-- A line break. -/
def newline? : List Char → Option (List Char)
  | '\n' :: cs => some cs
  | '\r' :: '\n' :: cs => some cs
  | _ => none

def skipNewline (cs : List Char) : List Char := (newline? cs).getD cs

/-- The text after a comment, if there is one. -/
def skipComment : List Char → List Char
  | '#' :: cs => cs.dropWhile isPlain
  | cs => cs

/-- The end of a line, with the blanks and the comment in front of it. -/
def lineEnd? (cs : List Char) : Option (List Char) :=
  match skipComment (skipBlanks cs) with
  | [] => some []
  | cs => newline? cs

/-- Skips blanks and line breaks. -/
def skipSpace : List Char → List Char
  | '\r' :: '\n' :: cs => skipSpace cs
  | c :: cs => if isBlank c || c = '\n' then skipSpace cs else c :: cs
  | [] => []

/-! ## Escapes -/

/-- The character whose code the next `n` hexadecimal digits are; `acc` is read already. -/
def codePoint? : (n acc : Nat) → List Char → Scan Char
  | 0, acc, cs => if acc.isValidChar then some (Char.ofNat acc, cs) else none
  | _ + 1, _, [] => none
  | n + 1, acc, c :: cs =>
    match digitValue? 16 c with
    | some d => codePoint? n (acc * 16 + d) cs
    | none => none

/-- The character that an escape stands for, after its backslash. -/
def escaped? : List Char → Scan Char
  | 'b' :: cs => some ('\x08', cs)
  | 't' :: cs => some ('\t', cs)
  | 'n' :: cs => some ('\n', cs)
  | 'f' :: cs => some ('\x0c', cs)
  | 'r' :: cs => some ('\r', cs)
  | '"' :: cs => some ('"', cs)
  | '\\' :: cs => some ('\\', cs)
  | 'u' :: cs => codePoint? 4 0 cs
  | 'U' :: cs => codePoint? 8 0 cs
  | _ => none

/-! ## Strings -/

def prepend (head : List Char) (s : Scan (List Char)) : Scan (List Char) :=
  s.map fun r => (head ++ r.1, r.2)

/-- A string on one line, after its opening quote. `fuel` exceeds the length of the text. -/
def basicLine : (fuel : Nat) → List Char → Scan (List Char)
  | 0, _ => none
  | _, [] => none
  | _, '"' :: cs => some ([], cs)
  | fuel + 1, '\\' :: cs =>
    match escaped? cs with
    | some (c, cs) => prepend [c] (basicLine fuel cs)
    | none => none
  | fuel + 1, c :: cs => if isPlain c then prepend [c] (basicLine fuel cs) else none

/-- A string without escapes on one line, after its opening quote. -/
def literalLine : List Char → Scan (List Char)
  | [] => none
  | '\'' :: cs => some ([], cs)
  | c :: cs => if isPlain c then prepend [c] (literalLine cs) else none

/-- A run of quotes inside a string of several lines, or at its end: the quotes that belong to the
string, whether it ends, and the rest. Three quotes end the string, and up to two more in front of
them belong to it. -/
def quoteRun (quote : Char) (cs : List Char) : List Char × Bool × List Char :=
  let n := (cs.takeWhile (· = quote)).length
  if n < 3 then (List.replicate n quote, false, cs.drop n)
  else (List.replicate (min n 5 - 3) quote, true, cs.drop (min n 5))

/-- A string of several lines, after its opening quotes; `escapes` tells whether a backslash
begins an escape. A backslash at the end of a line joins it with the text that follows. -/
def lines (escapes : Bool) (quote : Char) : (fuel : Nat) → List Char → Scan (List Char)
  | 0, _ => none
  | _, [] => none
  | fuel + 1, c :: cs =>
    if c = quote then
      match quoteRun quote (c :: cs) with
      | (quotes, true, rest) => some (quotes, rest)
      | (quotes, false, rest) => prepend quotes (lines escapes quote fuel rest)
    else if escapes && c = '\\' then
      match newline? (skipBlanks cs) with
      | some rest => lines escapes quote fuel (skipSpace rest)
      | none =>
        match escaped? cs with
        | some (c, cs) => prepend [c] (lines escapes quote fuel cs)
        | none => none
    else
      match newline? (c :: cs) with
      | some rest => prepend ['\n'] (lines escapes quote fuel rest)
      | none => if isPlain c then prepend [c] (lines escapes quote fuel cs) else none

/-- A string on one line. -/
def lineString : List Char → Scan String
  | '"' :: cs => (basicLine (cs.length + 1) cs).map fun r => (String.ofList r.1, r.2)
  | '\'' :: cs => (literalLine cs).map fun r => (String.ofList r.1, r.2)
  | _ => none

/-- A string of any kind. -/
def string : List Char → Scan String
  | '"' :: '"' :: '"' :: cs =>
    (lines true '"' (cs.length + 1) (skipNewline cs)).map fun r => (String.ofList r.1, r.2)
  | '\'' :: '\'' :: '\'' :: cs =>
    (lines false '\'' (cs.length + 1) (skipNewline cs)).map fun r => (String.ofList r.1, r.2)
  | cs => lineString cs

end Toml
end RenderFarm
