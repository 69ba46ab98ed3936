import RenderFarm.Json.Draft
import RenderFarm.Text.Letter
import RenderFarm.Word

/-!
# RenderFarm.Json.Reader

Reads a JSON text into a draft. The reading goes on until the value is complete or the text stops
being JSON; in the second case the draft is marked there and nothing is left to read.

Integers that fit a 64-bit word, signed or unsigned, are exact. Other numbers become doubles:
as many digits as fit a word are taken, and the result is scaled by a power of ten.
-/

namespace RenderFarm
namespace Json
namespace Reader

open Text (digitValue? isDigit)

def isBlank (c : Char) : Bool := c = ' ' || c = '\n' || c = '\t' || c = '\r'

def skipBlanks : List Char → List Char
  | [] => []
  | c :: cs => if isBlank c then skipBlanks cs else c :: cs

def digitValue (c : Char) : Nat := c.toNat - '0'.toNat

/-! ## Numbers -/

/-- `10 ^ n` as a double, for `n` up to 308. -/
def powerOfTen (n : Nat) : Float := Float.ofScientific 1 false n

/-- Divides by powers of ten until the exponent is used up; `fuel` bounds the steps. -/
def scaleDown : Nat → Float → Nat → Float
  | 0, x, _ => x
  | fuel + 1, x, n =>
    if n ≤ 308 then x / powerOfTen n
    else if x == 0 then x
    else scaleDown fuel (x / powerOfTen 308) (n - 308)

/-- A word scaled by a power of ten; none if that is beyond the doubles. -/
def scale (significand : Nat) (exponent : Int) : Option Float :=
  let x := (UInt64.ofNat significand).toFloat
  if exponent < 0 then some (scaleDown 8 x (-exponent).toNat)
  else if exponent ≤ 308 then
    let y := x * powerOfTen exponent.toNat
    if y.isInf then none else some y
  else if significand = 0 then some x
  else none

/-- Takes the digits that still fit a word; tells how many fitted and how many did not. -/
def takeDigits : Nat → Nat → Nat → List Char → Nat × Nat × Nat × List Char
  | sig, taken, beyond, [] => (sig, taken, beyond, [])
  | sig, taken, beyond, c :: cs =>
    if isDigit c then
      let sig' := sig * 10 + digitValue c
      if beyond = 0 && sig' < Word.size then takeDigits sig' (taken + 1) 0 cs
      else takeDigits sig taken (beyond + 1) cs
    else (sig, taken, beyond, c :: cs)

/-- Exponents from here on are as good as infinite. -/
def exponentLimit : Nat := 0x80000000

/-- The digits of an exponent; a large one counts as large. -/
def takeExponent : Nat → List Char → Nat × List Char
  | n, [] => (n, [])
  | n, c :: cs =>
    if isDigit c then takeExponent (if n < exponentLimit then n * 10 + digitValue c else n) cs
    else (n, c :: cs)

def signed (negative : Bool) (x : Float) : Float := if negative then -x else x

/-- A double with its sign, or a number without a value. -/
def ofScale (negative : Bool) (significand : Nat) (exponent : Int) : Draft :=
  match scale significand exponent with
  | some x => .float (signed negative x)
  | none => .valueless

/-- After the mark of an exponent. -/
def exponentPart (negative : Bool) (sig : Nat) (exponent : Int) (cs : List Char) :
    Draft × Option (List Char) :=
  let (down, cs) := match cs with
    | '+' :: cs => (false, cs)
    | '-' :: cs => (true, cs)
    | cs => (false, cs)
  match cs with
  | [] => (.broken, none)
  | c :: _ =>
    if isDigit c then
      let (n, rest) := takeExponent 0 cs
      if exponentLimit ≤ n then
        if sig ≠ 0 && !down then (.valueless, some rest)
        else (.float (signed negative 0), some rest)
      else (ofScale negative sig (if down then exponent - n else exponent + n), some rest)
    else (.broken, none)

/-- After the digits in front of the point. -/
def afterInteger (negative : Bool) (sig beyond : Nat) : List Char → Draft × Option (List Char)
  | '.' :: cs =>
    let (sig', taken, more, rest) := takeDigits sig 0 0 cs
    if taken = 0 && more = 0 then (.broken, none)
    else
      let exponent : Int := (beyond : Int) - taken
      match rest with
      | 'e' :: cs => exponentPart negative sig' exponent cs
      | 'E' :: cs => exponentPart negative sig' exponent cs
      | rest => (ofScale negative sig' exponent, some rest)
  | 'e' :: cs => exponentPart negative sig beyond cs
  | 'E' :: cs => exponentPart negative sig beyond cs
  | rest =>
    if beyond ≠ 0 then (ofScale negative sig beyond, some rest)
    else if !negative then (.int sig, some rest)
    else if sig = 0 || Word.half < sig then
      (.float (-(UInt64.ofNat sig).toFloat), some rest)
    else (.int (-(sig : Int)), some rest)

/-- A number, after its sign. -/
def number (negative : Bool) : List Char → Draft × Option (List Char)
  | [] => (.broken, none)
  | c :: cs =>
    if c = '0' then
      match cs with
      | d :: _ => if isDigit d then (.broken, none) else afterInteger negative 0 0 cs
      | [] => afterInteger negative 0 0 []
    else if isDigit c then
      let (sig, _, beyond, rest) := takeDigits (digitValue c) 1 0 cs
      afterInteger negative sig beyond rest
    else (.broken, none)

/-! ## Strings -/

def hex4? : List Char → Option (Nat × List Char)
  | a :: b :: c :: d :: cs =>
    match digitValue? 16 a, digitValue? 16 b, digitValue? 16 c, digitValue? 16 d with
    | some a, some b, some c, some d => some (((a * 16 + b) * 16 + c) * 16 + d, cs)
    | _, _, _, _ => none
  | _ => none

def escape? : Char → Option Char
  | '"' => some '"'
  | '\\' => some '\\'
  | '/' => some '/'
  | 'b' => some '\x08'
  | 'f' => some '\x0c'
  | 'n' => some '\n'
  | 'r' => some '\r'
  | 't' => some '\t'
  | _ => none

/-- The text of a string, after its opening quote. A text that is absent, while the rest is
not, holds half a surrogate pair. -/
def string : Nat → List Char → Option (Option (List Char) × List Char)
  | 0, _ => none
  | _, [] => none
  | fuel + 1, c :: cs =>
    if c = '"' then some (some [], cs)
    else if c = '\\' then
      match cs with
      | 'u' :: cs =>
        match hex4? cs with
        | none => none
        | some (n, cs) =>
          if 0xD800 ≤ n && n ≤ 0xDBFF then
            match cs with
            | '\\' :: 'u' :: cs' =>
              match hex4? cs' with
              | none => none
              | some (m, cs') =>
                if 0xDC00 ≤ m && m ≤ 0xDFFF then
                  let c := Char.ofNat (0x10000 + (n - 0xD800) * 0x400 + (m - 0xDC00))
                  (string fuel cs').map fun r => (r.1.map (c :: ·), r.2)
                else (string fuel cs).map fun r => (none, r.2)
            | _ => (string fuel cs).map fun r => (none, r.2)
          else if 0xDC00 ≤ n && n ≤ 0xDFFF then (string fuel cs).map fun r => (none, r.2)
          else (string fuel cs).map fun r => (r.1.map (Char.ofNat n :: ·), r.2)
      | e :: cs =>
        match escape? e with
        | some c => (string fuel cs).map fun r => (r.1.map (c :: ·), r.2)
        | none => none
      | [] => none
    else if c.toNat < 0x20 then none
    else (string fuel cs).map fun r => (r.1.map (c :: ·), r.2)

/-! ## Values -/

/-- The text without the word in front. -/
def dropWord : List Char → List Char → Option (List Char)
  | [], cs => some cs
  | _ :: _, [] => none
  | w :: ws, c :: cs => if w = c then dropWord ws cs else none

def word (text : List Char) (d : Draft) (cs : List Char) : Draft × Option (List Char) :=
  match dropWord text cs with
  | some rest => (d, some rest)
  | none => (.broken, none)

mutual

/-- One value; the rest of the text is absent if it is not JSON up to there. `fuel` exceeds the
length of the text. -/
def value : Nat → List Char → Draft × Option (List Char)
  | 0, _ => (.broken, none)
  | fuel + 1, cs =>
    match skipBlanks cs with
    | [] => (.broken, none)
    | 'n' :: cs => word ['u', 'l', 'l'] .null cs
    | 't' :: cs => word ['r', 'u', 'e'] (.bool true) cs
    | 'f' :: cs => word ['a', 'l', 's', 'e'] (.bool false) cs
    | '"' :: cs =>
      match string (cs.length + 1) cs with
      | some (some s, rest) => (.str (String.ofList s), some rest)
      | some (none, rest) => (.valueless, some rest)
      | none => (.broken, none)
    | '[' :: cs =>
      match skipBlanks cs with
      | ']' :: rest => (.arr [] true, some rest)
      | cs =>
        let (items, rest) := items fuel cs
        (.arr items rest.isSome, rest)
    | '\x7b' :: cs =>
      match skipBlanks cs with
      | '\x7d' :: rest => (.obj [] true, some rest)
      | cs =>
        let (fields, rest) := fields fuel cs
        (.obj fields rest.isSome, rest)
    | '-' :: cs => number true cs
    | cs => number false cs

/-- The items of an array up to its closing bracket. -/
def items : Nat → List Char → List Draft × Option (List Char)
  | 0, _ => ([], none)
  | fuel + 1, cs =>
    match value fuel cs with
    | (d, none) => ([d], none)
    | (d, some rest) =>
      match skipBlanks rest with
      | ']' :: rest => ([d], some rest)
      | ',' :: rest =>
        match skipBlanks rest with
        | ']' :: _ => ([d], none)
        | rest =>
          let (ds, rest) := items fuel rest
          (d :: ds, rest)
      | _ => ([d], none)

/-- The fields of an object up to its closing brace. -/
def fields : Nat → List Char → List (Option String × Draft) × Option (List Char)
  | 0, _ => ([], none)
  | fuel + 1, cs =>
    match skipBlanks cs with
    | '"' :: cs =>
      match string (cs.length + 1) cs with
      | none => ([], none)
      | some (key, rest) =>
        let key := key.map String.ofList
        match skipBlanks rest with
        | ':' :: rest =>
          match value fuel rest with
          | (d, none) => ([(key, d)], none)
          | (d, some rest) =>
            match skipBlanks rest with
            | '\x7d' :: rest => ([(key, d)], some rest)
            | ',' :: rest =>
              let (fs, rest) := fields fuel rest
              ((key, d) :: fs, rest)
            | _ => ([(key, d)], none)
        | _ => ([(key, .broken)], none)
    | _ => ([], none)

end

/-- Reads a text that holds one value; tells whether nothing but blanks follows it. -/
def read (cs : List Char) : Draft × Bool :=
  match value (cs.length + 1) cs with
  | (d, none) => (d, false)
  | (d, some rest) => (d, (skipBlanks rest).isEmpty)

end Reader

/-- The value that a text holds, whatever its depth. -/
def parse? (text : String) : Option Json :=
  match Reader.read text.toList with
  | (d, true) => d.toJson? none
  | (_, false) => none

end Json
end RenderFarm
