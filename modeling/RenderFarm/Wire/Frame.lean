import RenderFarm.Text.Blank
import RenderFarm.Text.Split
import RenderFarm.Wire.Decode

/-!
# RenderFarm.Wire.Frame

Messages on a stream of bytes: one per line, in UTF-8. Blank lines mean nothing.

* `requests` is what a server takes from the stream of one connection.
* `firstFrame` is what a client takes from the stream that answers its request.
-/

namespace RenderFarm
namespace Wire

/-- The bytes between two newlines. -/
abbrev Line := List UInt8

/-- The lines of a stream; the last one need not end in a newline. -/
def linesOf (bytes : List UInt8) : List Line := Text.split 10 bytes

/-- What a line says. -/
inductive Reading (α : Type) where
  | blank
  /-- The line is not UTF-8. -/
  | garbled
  | malformed (fault : Json.Fault)
  | frame (a : α)

def textOf? (l : Line) : Option (List Char) :=
  (String.fromUTF8? ⟨l.toArray⟩).map String.toList

def readLine {α : Type} (d : Json.Decoder α) (l : Line) : Reading α :=
  match textOf? l with
  | none => .garbled
  | some cs =>
    if cs.all Text.isBlank then .blank
    else
      match Json.decodeText d (Text.trimEnd cs) with
      | .ok a => .frame a
      | .error f => .malformed f

/-- The requests in the lines up to the first one that is not UTF-8; a line that is no request
is passed over. -/
def requests : List Line → List Request
  | [] => []
  | l :: ls =>
    match readLine Request.decoder l with
    | .garbled => []
    | .blank | .malformed _ => requests ls
    | .frame r => r :: requests ls

/-- The first line that is not blank. -/
def firstFrame {α : Type} (d : Json.Decoder α) : List Line → Reading α
  | [] => .blank
  | l :: ls =>
    match readLine d l with
    | .blank => firstFrame d ls
    | reading => reading

end Wire
end RenderFarm
