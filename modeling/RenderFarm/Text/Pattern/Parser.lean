import RenderFarm.Text.Pattern.Basic
import RenderFarm.Word

/-!
# RenderFarm.Text.Pattern.Parser

Patterns as they are written. An ordinary character stands for itself; `.` is any character but a
newline, `[a-z]` one of a set, `[^a-z]` one outside it; `*`, `+`, `?` and `{2,5}` repeat what is in
front of them; `|` is a choice; parentheses group; `^` and `$` are the ends of the text; and a
backslash begins an escape.
-/

namespace RenderFarm
namespace Text
namespace Pattern

/-- What was read from the front of the text, and the rest. -/
abbrev Taken (α : Type) : Type := Option (α × List Char)

/-! ## Escapes -/

/-- The character with the code that the hexadecimal digits write. -/
def ofHex? (digits : List Char) : Option Char :=
  let code := digits.foldl (fun n c =>
    match n, digitValue? 16 c with
    | some n, some d => if n < Word.size32 then some (n * 16 + d) else none
    | _, _ => none) (some 0)
  match code with
  | some n => if !digits.isEmpty && n.isValidChar then some (Char.ofNat n) else none
  | none => none

/-- The code after `\x` or `\u`: as many digits as given, or any number of them in braces. -/
def code? (n : Nat) : List Char → Taken Char
  | '\x7b' :: cs =>
    match cs.dropWhile (· ≠ '\x7d') with
    | [] => none
    | _ :: rest => (ofHex? (cs.takeWhile (· ≠ '\x7d'))).map fun c => (c, rest)
  | cs => if cs.length < n then none else (ofHex? (cs.take n)).map fun c => (c, cs.drop n)

/-- A set of characters that an escape stands for. -/
def escapedClass? : Char → Option CharClass
  | 'd' => some .digit
  | 'D' => some (.complement .digit)
  | 'w' => some .word
  | 'W' => some (.complement .word)
  | 's' => some .blank
  | 'S' => some (.complement .blank)
  | _ => none

/-- A single character that an escape stands for. -/
def escapedChar? : List Char → Taken Char
  | 'a' :: cs => some ('\x07', cs)
  | 'f' :: cs => some ('\x0c', cs)
  | 't' :: cs => some ('\t', cs)
  | 'n' :: cs => some ('\n', cs)
  | 'r' :: cs => some ('\r', cs)
  | 'v' :: cs => some ('\x0b', cs)
  | 'x' :: cs => code? 2 cs
  | 'u' :: cs => code? 4 cs
  | 'U' :: cs => code? 8 cs
  | c :: cs => if isAlphanumeric c || 128 ≤ c.toNat || c = '<' || c = '>' then none else some (c, cs)
  | [] => none

def escapedAnchor? : Char → Option Anchor
  | 'b' => some .wordEdge
  | 'B' => some .noWordEdge
  | 'A' => some .start
  | 'z' => some .stop
  | _ => none

/-- What a backslash begins. -/
def escape? : List Char → Taken Pattern
  | [] => none
  | c :: cs =>
    match escapedClass? c, escapedAnchor? c with
    | some s, _ => some (.char s, cs)
    | none, some a => some (.anchor a, cs)
    | none, none => (escapedChar? (c :: cs)).map fun (c, cs) => (.char (.one c), cs)

/-! ## Sets of characters -/

/-- One end of a range, or a set of its own. -/
def member? : List Char → Taken (Char ⊕ CharClass)
  | [] => none
  | '[' :: _ => none
  | '\\' :: c :: cs =>
    match escapedClass? c with
    | some s => some (.inr s, cs)
    | none => (escapedChar? (c :: cs)).map fun (c, cs) => (.inl c, cs)
  | c :: cs => some (.inl c, cs)

/-- The members up to the closing bracket; `acc` is read already. -/
def members? : (fuel : Nat) → (acc : CharClass) → List Char → Taken CharClass
  | 0, _, _ => none
  | _, acc, ']' :: cs => some (acc, cs)
  | fuel + 1, acc, cs =>
    match member? cs with
    | none => none
    | some (.inr s, cs) => members? fuel (acc.union s) cs
    | some (.inl first, '-' :: ']' :: cs) =>
      some ((acc.union (.one first)).union (.one '-'), cs)
    | some (.inl first, '-' :: cs) =>
      match member? cs with
      | some (.inl last, cs) =>
        if first ≤ last then members? fuel (acc.union (.range first last)) cs else none
      | _ => none
    | some (.inl first, cs) => members? fuel (acc.union (.one first)) cs

/-- A set, after its opening bracket. A closing bracket that comes first is a member. -/
def class? (cs : List Char) : Taken CharClass :=
  let (negated, cs) :=
    match cs with
    | '^' :: cs => (true, cs)
    | cs => (false, cs)
  let members :=
    match cs with
    | ']' :: cs => members? (cs.length + 1) (.one ']') cs
    | cs => members? (cs.length + 1) .nothing cs
  members.map fun (s, cs) => (if negated then .complement s else s, cs)

/-! ## Repetition -/

/-- A decimal number. -/
def number? (cs : List Char) : Taken Nat :=
  let digits := cs.takeWhile isDigit
  if digits.isEmpty then none
  else some (digits.foldl (fun n c => n * 10 + (c.toNat - 48)) 0, cs.dropWhile isDigit)

/-- The greatest number of repetitions that can be asked for. -/
def maxRepetitions : Nat := 1000

/-- A count of repetitions, after its opening brace. -/
def counted? (a : Pattern) (cs : List Char) : Taken Pattern :=
  match number? cs with
  | none => none
  | some (n, cs) =>
    if maxRepetitions < n then none
    else
      match cs with
      | '\x7d' :: cs => some (a.power n, cs)
      | ',' :: '\x7d' :: cs => some ((a.power n).followedBy (.star a), cs)
      | ',' :: cs =>
        match number? cs with
        | some (m, '\x7d' :: cs) =>
          if m < n || maxRepetitions < m then none
          else some ((a.power n).followedBy (a.upTo (m - n)), cs)
        | _ => none
      | _ => none

/-- Preferring fewer repetitions does not change whether a text matches. -/
def skipLazy : List Char → List Char
  | '?' :: cs => cs
  | cs => cs

/-- The repetitions that follow a pattern. -/
def repeated? : (fuel : Nat) → Pattern → List Char → Taken Pattern
  | 0, a, cs => some (a, cs)
  | fuel + 1, a, '*' :: cs => repeated? fuel (.star a) (skipLazy cs)
  | fuel + 1, a, '+' :: cs => repeated? fuel a.plus (skipLazy cs)
  | fuel + 1, a, '?' :: cs => repeated? fuel a.optional (skipLazy cs)
  | fuel + 1, a, '\x7b' :: cs =>
    match counted? a cs with
    | some (a, cs) => repeated? fuel a (skipLazy cs)
    | none => none
  | _ + 1, a, cs => some (a, cs)

/-! ## Patterns -/

/-- A group without a name or a number. -/
def skipUnnamed : List Char → List Char
  | '?' :: ':' :: cs => cs
  | cs => cs

mutual

/-- A choice; `fuel` exceeds twice the length of the text. -/
def choice? : (fuel : Nat) → List Char → Taken Pattern
  | 0, _ => none
  | fuel + 1, cs =>
    match sequence? fuel cs with
    | none => none
    | some (a, '|' :: cs) => (choice? fuel cs).map fun (b, cs) => (.alt a b, cs)
    | some r => some r

/-- Patterns one after the other. -/
def sequence? : (fuel : Nat) → List Char → Taken Pattern
  | 0, _ => none
  | _, [] => some (.empty, [])
  | _, '|' :: cs => some (.empty, '|' :: cs)
  | _, ')' :: cs => some (.empty, ')' :: cs)
  | fuel + 1, c :: cs =>
    let first :=
      match c with
      | '(' =>
        match choice? fuel (skipUnnamed cs) with
        | some (a, ')' :: rest) => some (a, rest)
        | _ => none
      | '[' => (class? cs).map fun (s, cs) => (.char s, cs)
      | '.' => some (.char (.complement (.one '\n')), cs)
      | '^' => some (.anchor .start, cs)
      | '$' => some (.anchor .stop, cs)
      | '\\' => escape? cs
      | '*' | '+' | '?' | '\x7b' => none
      | c => some (.char (.one c), cs)
    match first with
    | none => none
    | some (a, cs) =>
      match repeated? cs.length a cs with
      | none => none
      | some (a, cs) => (sequence? fuel cs).map fun (b, cs) => (a.followedBy b, cs)

end

/-- The pattern that the text writes. -/
def parse? (s : String) : Option Pattern :=
  match choice? (2 * s.length + 2) s.toList with
  | some (a, []) => some a
  | _ => none

end Pattern
end Text
end RenderFarm
