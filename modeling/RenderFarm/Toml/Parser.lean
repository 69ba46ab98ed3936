import RenderFarm.Toml.Document
import RenderFarm.Toml.Moment
import RenderFarm.Toml.Number

/-!
# RenderFarm.Toml.Parser

Reads a TOML document into a tree. `parse?` gives nothing if the document is not well-formed.
-/

namespace RenderFarm
namespace Toml

open Config (Tree)

/-- How many keys a path may have, and how many brackets may be open. -/
def nestingLimit : Nat := 80

/-! ## Keys -/

def isBareKeyChar (c : Char) : Bool :=
  Text.isAlphanumeric c || c = '_' || c = '-'

def simpleKey : List Char → Scan String
  | [] => none
  | c :: cs =>
    if c = '"' || c = '\'' then lineString (c :: cs)
    else
      let bare := (c :: cs).takeWhile isBareKeyChar
      if bare.isEmpty then none
      else some (String.ofList bare, (c :: cs).dropWhile isBareKeyChar)

/-- Keys with dots between them, and blanks around each. `fuel` exceeds the length of the text. -/
def dottedKey : (fuel : Nat) → List Char → Scan (List String)
  | 0, _ => none
  | fuel + 1, cs =>
    match simpleKey (skipBlanks cs) with
    | none => none
    | some (k, cs) =>
      match skipBlanks cs with
      | '.' :: cs => (dottedKey fuel cs).map fun r => (k :: r.1, r.2)
      | cs => some ([k], cs)

/-- A key that may be dotted: what is in front of the last dot, and the last part. -/
def key (cs : List Char) : Scan (List String × String) :=
  match dottedKey (cs.length + 1) cs with
  | none => none
  | some (ks, rest) =>
    match ks.getLast? with
    | some k => if ks.length < nestingLimit then some ((ks.dropLast, k), rest) else none
    | none => none

/-! ## Values -/

/-- The text after a word. -/
def word? : List Char → List Char → Option (List Char)
  | [], cs => some cs
  | _ :: _, [] => none
  | w :: ws, c :: cs => if w = c then word? ws cs else none

/-- A moment is kept as a table that no setting has. -/
def momentTree (text : List Char) : Tree := .table [("$moment", .text (String.ofList text))]

/-- A value without parts. -/
def scalar (cs : List Char) : Scan Tree :=
  match cs with
  | [] => none
  | c :: _ =>
    if c = '"' || c = '\'' then (string cs).map fun r => (.text r.1, r.2)
    else if c = 't' then (word? "true".toList cs).map fun r => (.bool true, r)
    else if c = 'f' then (word? "false".toList cs).map fun r => (.bool false, r)
    else
      match skipMoment cs with
      | some rest => some (momentTree (cs.take (cs.length - rest.length)), rest)
      | none =>
        match float cs with
        | some (x, rest) => some (.float x, rest)
        | none => (integer cs).map fun r => (.int r.1, r.2)

/-- Skips blanks, line breaks and comments. `fuel` exceeds the length of the text. -/
def skipGaps : (fuel : Nat) → List Char → List Char
  | 0, cs => cs
  | fuel + 1, cs =>
    match skipSpace cs with
    | '#' :: cs =>
      let rest := cs.dropWhile isPlain
      match newline? rest with
      | some rest => skipGaps fuel rest
      | none => rest
    | cs => cs

mutual

/-- One value; `depth` brackets may be opened. `fuel` exceeds the length of the text. -/
def value : (fuel depth : Nat) → List Char → Scan Tree
  | 0, _, _ => none
  | fuel + 1, depth, cs =>
    match cs with
    | '[' :: cs =>
      match depth with
      | 0 => none
      | depth + 1 => (items fuel depth cs).map fun r => (.array r.1, r.2)
    | '\x7b' :: cs =>
      match depth with
      | 0 => none
      | depth + 1 =>
        let entries :=
          match skipBlanks cs with
          | '\x7d' :: rest => some ([], rest)
          | cs => inlineEntries fuel depth cs
        match entries with
        | none => none
        | some (es, rest) =>
          (Node.assignAll es (Node.emptyTable .given)).map fun n => (n.toTree, rest)
    | cs => scalar cs

/-- The items of an array up to its closing bracket; a comma may follow the last one. -/
def items : (fuel depth : Nat) → List Char → Scan (List Tree)
  | 0, _, _ => none
  | fuel + 1, depth, cs =>
    match skipGaps (cs.length + 1) cs with
    | ']' :: rest => some ([], rest)
    | cs =>
      match value fuel depth cs with
      | none => none
      | some (t, cs) =>
        match skipGaps (cs.length + 1) cs with
        | ',' :: cs => (items fuel depth cs).map fun r => (t :: r.1, r.2)
        | ']' :: rest => some ([t], rest)
        | _ => none

/-- The entries of a table in braces up to the closing one. -/
def inlineEntries : (fuel depth : Nat) → List Char → Scan (List Node.Entry)
  | 0, _, _ => none
  | fuel + 1, depth, cs =>
    match entry fuel depth cs with
    | none => none
    | some (e, cs) =>
      match skipBlanks cs with
      | ',' :: cs => (inlineEntries fuel depth cs).map fun r => (e :: r.1, r.2)
      | '\x7d' :: rest => some ([e], rest)
      | _ => none

/-- A key and its value. -/
def entry : (fuel depth : Nat) → List Char → Scan Node.Entry
  | 0, _, _ => none
  | fuel + 1, depth, cs =>
    match key cs with
    | some ((path, k), '=' :: cs) =>
      (value fuel depth (skipBlanks cs)).map fun r => (⟨path, k, r.1⟩, r.2)
    | _ => none

end

/-! ## Lines -/

inductive Statement where
  | entry (e : Node.Entry)
  /-- A header; `element` tells whether it adds an element to an array of tables. -/
  | header (path : List String) (key : String) (element : Bool)

/-- A header, after its opening bracket. -/
def header (cs : List Char) : Scan Statement :=
  let (element, cs) := match cs with
    | '[' :: cs => (true, cs)
    | cs => (false, cs)
  match key cs with
  | none => none
  | some ((path, k), cs) =>
    match element, cs with
    | false, ']' :: rest => some (.header path k false, rest)
    | true, ']' :: ']' :: rest => some (.header path k true, rest)
    | _, _ => none

def statement (cs : List Char) : Scan Statement :=
  match cs with
  | '[' :: cs => header cs
  | cs => (entry (2 * cs.length + 2) (nestingLimit - 1) cs).map fun r => (.entry r.1, r.2)

/-- The statements of a document; each is alone on its line. `fuel` exceeds the length of the
text. -/
def statements : (fuel : Nat) → List Char → Option (List Statement)
  | 0, _ => none
  | fuel + 1, cs =>
    match skipBlanks cs with
    | [] => some []
    | cs =>
      match lineEnd? cs with
      | some rest => if rest.length < cs.length then statements fuel rest else none
      | none =>
        match statement cs with
        | none => none
        | some (s, rest) =>
          match lineEnd? rest with
          | none => none
          | some rest => (statements fuel rest).map (s :: ·)

/-- Splits statements into the entries in front of the first header, and the sections. -/
def sectionsOf : List Statement → List Node.Entry × List Section
  | [] => ([], [])
  | .entry e :: ss =>
    let (es, sections) := sectionsOf ss
    (e :: es, sections)
  | .header path key element :: ss =>
    let (es, sections) := sectionsOf ss
    ([], ⟨path, key, element, es⟩ :: sections)

/-- A mark of the byte order may stand in front of a document. -/
def skipByteOrderMark : List Char → List Char
  | '\uFEFF' :: cs => cs
  | cs => cs

/-- The tree of a document. -/
def parse? (text : String) : Option Tree :=
  let cs := skipByteOrderMark text.toList
  match statements (cs.length + 1) cs with
  | none => none
  | some ss =>
    let (entries, sections) := sectionsOf ss
    assemble entries sections

end Toml
end RenderFarm
