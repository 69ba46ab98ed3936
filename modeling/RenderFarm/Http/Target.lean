import RenderFarm.Text.Letter
import RenderFarm.Text.Split

/-!
# RenderFarm.Http.Target

What a request over HTTP asks for: the path and the query of an address, as they are written on the
request line.

* `Target.ofText` reads them from the part of an address that follows the host.
* `Target.follow?` is where a relative address leads.
-/

namespace RenderFarm
namespace Http

structure Target where
  segments : List (List Char)
  query : Option (List Char)
  deriving DecidableEq, Repr

namespace Target

/-! ## Escapes -/

def hexDigit (n : Nat) : Char := if n < 10 then Char.ofNat (48 + n) else Char.ofNat (55 + n)

/-- A byte as a percent sign and two digits. -/
def escapeByte (b : UInt8) : List Char :=
  ['%', hexDigit (b.toNat / 16), hexDigit (b.toNat % 16)]

/-- Characters that no part of an address holds as they are. -/
def isForeign (c : Char) : Bool :=
  c.toNat ≤ 0x20 || 0x7E < c.toNat || c = '"' || c = '#' || c = '<' || c = '>'

def isForeignToPath (c : Char) : Bool :=
  isForeign c || c = '?' || c = Char.ofNat 0x60 || c = '\x7b' || c = '\x7d'

def isForeignToQuery (c : Char) : Bool := isForeign c || c = '\''

/-- The text with its foreign characters escaped. -/
def escape (foreign : Char → Bool) (cs : List Char) : List Char :=
  cs.flatMap fun c => if foreign c then (String.singleton c).toUTF8.toList.flatMap escapeByte else [c]

/-! ## Segments -/

/-- A point, plain or escaped. -/
def skipPoint? : List Char → Option (List Char)
  | '.' :: cs => some cs
  | '%' :: '2' :: 'e' :: cs => some cs
  | '%' :: '2' :: 'E' :: cs => some cs
  | _ => none

/-- A segment that stands for the place itself. -/
def isHere (cs : List Char) : Bool := skipPoint? cs = some []

/-- A segment that stands for the place above. -/
def isAbove (cs : List Char) : Bool := (skipPoint? cs).bind skipPoint? = some []

/-- Goes along segments from the place `at`; the last one names something in its place. -/
def walk (place : List (List Char)) : List (List Char) → List (List Char)
  | [] => place
  | [s] =>
    if isAbove s then place.dropLast ++ [[]]
    else if isHere s then place ++ [[]]
    else place ++ [escape isForeignToPath s]
  | s :: ss =>
    if isAbove s then walk place.dropLast ss
    else if isHere s then walk place ss
    else walk (place ++ [escape isForeignToPath s]) ss

/-! ## Reading -/

/-- Line breaks and tabs mean nothing in an address, nor do blanks at its end. -/
def cleaned (cs : List Char) : List Char :=
  ((cs.reverse.dropWhile fun c => c.toNat ≤ 0x20).reverse).filter fun c =>
    c ≠ '\t' && c ≠ '\n' && c ≠ '\r'

/-- A backslash counts as a slash. -/
def slashed (cs : List Char) : List Char := cs.map fun c => if c = '\\' then '/' else c

/-- The path and the query of an address; what follows `#` is not asked for. -/
def pathAndQuery (cs : List Char) : List Char × Option (List Char) :=
  let cs := (cleaned cs).takeWhile (· ≠ '#')
  (cs.takeWhile (· ≠ '?'),
    match cs.dropWhile (· ≠ '?') with
    | [] => none
    | _ :: query => some (escape isForeignToQuery query))

/-- Reads the part of an address from the slash after the host on. -/
def ofText (s : String) : Target :=
  let (path, query) := pathAndQuery s.toList
  ⟨walk [] (Text.split '/' (slashed path)).tail, query⟩

/-- Whether the address names a host of its own. -/
def namesHost (cs : List Char) : Bool :=
  match slashed cs with
  | '/' :: '/' :: _ => true
  | cs =>
    let scheme := cs.takeWhile fun c => Text.isAlphanumeric c || c = '+' || c = '-' || c = '.'
    !scheme.isEmpty && (cs.drop scheme.length).head? = some ':'

/-- Where an address leads that is given at `t`; absent if it leads to another host. -/
def follow? (t : Target) (s : String) : Option Target :=
  let cs := (cleaned s.toList).dropWhile fun c => c.toNat ≤ 0x20
  if namesHost cs then none
  else
    match pathAndQuery cs with
    | ([], none) => some t
    | ([], query) => some { t with query }
    | (path, query) =>
      match Text.split '/' (slashed path) with
      | [] :: segments => some ⟨walk [] segments, query⟩
      | segments => some ⟨walk t.segments.dropLast segments, query⟩

/-- The target as it is written on the request line. -/
def text (t : Target) : String :=
  String.ofList ('/' :: Text.join '/' t.segments ++
    match t.query with
    | some q => '?' :: q
    | none => [])

/-- The line that asks for the target. -/
def requestLine (t : Target) : String := "GET " ++ t.text ++ " HTTP/1.1"

end Target
end Http
end RenderFarm
