import RenderFarm.Http.Status
import RenderFarm.Text.Letter
import RenderFarm.Text.Split
import RenderFarm.Word

/-!
# RenderFarm.Http.Response

Answers over HTTP/1, read from all the bytes of a connection: a head of lines, then a body whose
length the head gives.

* `Head.read` reads a head, and gives the bytes after it.
* `Head.extent?` is how long the body is, and `Head.Extent.body?` takes it from those bytes.
* `Response.read` passes over interim answers.
-/

namespace RenderFarm
namespace Http

/-- The head of an answer; the names of its fields are in lower case. -/
structure Head where
  /-- The digit after `HTTP/1.` -/
  minorVersion : Nat
  status : Status
  fields : List (String × List UInt8)
  deriving DecidableEq, Repr

/-! ## Lines -/

/-- A line and what follows it; the carriage return before the newline may be missing. -/
def line? : List UInt8 → Option (List UInt8 × List UInt8)
  | [] => none
  | 10 :: rest => some ([], rest)
  | 13 :: 10 :: rest => some ([], rest)
  | b :: rest => (line? rest).map fun r => (b :: r.1, r.2)

/-- Passes over empty lines. -/
def skipEmptyLines : List UInt8 → List UInt8
  | 10 :: rest => skipEmptyLines rest
  | 13 :: 10 :: rest => skipEmptyLines rest
  | bytes => bytes

/-- Lines up to an empty one; `fuel` exceeds the number of bytes. -/
def lines? : (fuel : Nat) → List UInt8 → Option (List (List UInt8) × List UInt8)
  | 0, _ => none
  | fuel + 1, bytes =>
    match line? bytes with
    | none => none
    | some ([], rest) => some ([], rest)
    | some (l, rest) => (lines? fuel rest).map fun r => (l :: r.1, r.2)

/-! ## The head -/

def charOf (b : UInt8) : Char := Char.ofNat b.toNat

def textOf (bytes : List UInt8) : String := String.ofList (bytes.map charOf)

/-- Bytes that a value or a phrase may hold. -/
def isVisible (b : UInt8) : Bool := b = 9 || (32 ≤ b && b ≠ 127)

def isPadding (b : UInt8) : Bool := b = 9 || b = 32

/-- Bytes that the name of a field may hold. -/
def isNameByte (b : UInt8) : Bool :=
  Text.isAlphanumeric (charOf b) || "!#$%&'*+-.^_|~".toList.contains (charOf b) || b = 0x60

def trimPadding (bytes : List UInt8) : List UInt8 :=
  ((bytes.dropWhile isPadding).reverse.dropWhile isPadding).reverse

/-- A field: a name, a colon right after it, and a value. -/
def field? (l : List UInt8) : Option (String × List UInt8) :=
  let name := l.takeWhile isNameByte
  match l.dropWhile isNameByte with
  | 58 :: value =>
    if name.isEmpty || !value.all isVisible then none
    else some (String.ofList (name.map fun b => Text.lower (charOf b)), trimPadding value)
  | _ => none

/-- All fields, if every line is one. -/
def fields? : List (List UInt8) → Option (List (String × List UInt8))
  | [] => some []
  | l :: ls =>
    match field? l, fields? ls with
    | some f, some fs => some (f :: fs)
    | _, _ => none

/-- The number that decimal digits write. -/
def number? (bytes : List UInt8) : Option Nat :=
  if bytes.isEmpty || !bytes.all (fun b => Text.isDigit (charOf b)) then none
  else some (bytes.foldl (fun n b => n * 10 + (b.toNat - 48)) 0)

/-- The version and the status of an answer. -/
def statusLine? (l : List UInt8) : Option (Nat × Status) :=
  let minor? :=
    if l.take 9 = "HTTP/1.1 ".toUTF8.toList then some 1
    else if l.take 9 = "HTTP/1.0 ".toUTF8.toList then some 0
    else none
  let phrase := l.drop 12
  match minor?, number? ((l.drop 9).take 3) with
  | some minor, some code =>
    if 100 ≤ code && (phrase.isEmpty || phrase.head? = some 32) && phrase.all isVisible then
      some (minor, ⟨code⟩)
    else none
  | _, _ => none

namespace Head

/-- Reads a head, and gives the bytes after it. -/
def read (bytes : List UInt8) : Option (Head × List UInt8) :=
  let bytes := skipEmptyLines bytes
  match lines? (bytes.length + 1) bytes with
  | some (first :: rest, body) =>
    match statusLine? first, fields? rest with
    | some (minor, status), some fields => some (⟨minor, status, fields⟩, body)
    | _, _ => none
  | _ => none

/-- The values of a field, in order. -/
def values (h : Head) (name : String) : List (List UInt8) :=
  h.fields.filterMap fun f => if f.1 = name then some f.2 else none

/-! ## The body -/

/-- How long a body is. -/
inductive Extent where
  | bytes (n : Nat)
  | chunks
  | untilClose
  deriving DecidableEq, Repr

/-- The values in a list with commas. -/
def elements (values : List (List UInt8)) : List (List UInt8) :=
  values.flatMap fun v => (Text.split 44 v).map trimPadding

/-- The length that all given lengths agree on. -/
def agreed? : List (Option Nat) → Option Nat
  | [] => none
  | [n] => n
  | n :: ns => if agreed? ns = n then n else none

/-- The extent of the body that follows, if the head is sound. -/
def extent? (h : Head) : Option Extent :=
  if h.status.isBodiless then some (.bytes 0)
  else
    match h.values "transfer-encoding", h.values "content-length" with
    | [], [] => some .untilClose
    | [], lengths =>
      match agreed? ((elements lengths).map number?) with
      | some n => if n < Word.top - 1 then some (.bytes n) else none
      | none => none
    | encodings, _ =>
      if h.minorVersion = 0 then none
      else if ((elements encodings).getLast?).any fun e => Text.sameLetters (textOf e) "chunked" then
        some .chunks
      else some .untilClose

end Head

/-- The size of a chunk and what follows its line; anything may stand after a semicolon. -/
def chunkSize? (bytes : List UInt8) : Option (Nat × List UInt8) :=
  let digits := bytes.takeWhile fun b => (Text.digitValue? 16 (charOf b)).isSome
  let size := digits.foldl (fun n b => n * 16 + (Text.digitValue? 16 (charOf b)).getD 0) 0
  if digits.isEmpty || Word.size ≤ size then none
  else
    match (bytes.drop digits.length).dropWhile isPadding with
    | 13 :: 10 :: rest => some (size, rest)
    | 59 :: rest =>
      match rest.dropWhile fun b => b ≠ 13 && b ≠ 10 with
      | 13 :: 10 :: rest => some (size, rest)
      | _ => none
    | _ => none

/-- Whether the bytes begin with lines up to an empty one, each ended by both characters. -/
def hasTrailer : (fuel : Nat) → List UInt8 → Bool
  | 0, _ => false
  | _, 13 :: 10 :: _ => true
  | fuel + 1, bytes =>
    match bytes.dropWhile (· ≠ 13) with
    | 13 :: 10 :: rest => hasTrailer fuel rest
    | _ => false

/-- The body in chunks, if it is complete; `fuel` exceeds the number of bytes. -/
def unchunk? : (fuel : Nat) → List UInt8 → Option (List UInt8)
  | 0, _ => none
  | fuel + 1, bytes =>
    match chunkSize? bytes with
    | none => none
    | some (0, rest) => if hasTrailer (rest.length + 1) rest then some [] else none
    | some (n, rest) =>
      if rest.length < n then none
      else
        match rest.drop n with
        | 13 :: 10 :: more => (unchunk? fuel more).map fun body => rest.take n ++ body
        | _ => none

/-- The body in the bytes that follow the head, if it is complete. -/
def Head.Extent.body? (e : Head.Extent) (bytes : List UInt8) : Option (List UInt8) :=
  match e with
  | .bytes n => if bytes.length < n then none else some (bytes.take n)
  | .chunks => unchunk? (bytes.length + 1) bytes
  | .untilClose => some bytes

/-- An answer: a sound head, and the body if it is complete. -/
structure Response where
  head : Head
  body : Option (List UInt8)
  deriving DecidableEq, Repr

namespace Response

/-- Reads an answer, passing over interim ones; `fuel` exceeds the number of bytes. -/
def readWithin : (fuel : Nat) → List UInt8 → Option Response
  | 0, _ => none
  | fuel + 1, bytes =>
    match Head.read bytes with
    | none => none
    | some (h, rest) =>
      if h.status.isInterim then readWithin fuel rest
      else h.extent?.map fun e => ⟨h, e.body? rest⟩

def read (bytes : List UInt8) : Option Response := readWithin (bytes.length + 1) bytes

/-- Where the answer sends the client, if anywhere. -/
def location? (r : Response) : Option String :=
  if r.head.status.isRedirection then
    (r.head.values "location").head?.bind fun v => String.fromUTF8? ⟨v.toArray⟩
  else none

end Response
end Http
end RenderFarm
