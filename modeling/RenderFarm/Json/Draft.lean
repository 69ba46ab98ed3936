import RenderFarm.Json.Basic
import RenderFarm.Json.Fault

/-!
# RenderFarm.Json.Draft

A JSON text as it was written, as far as it is JSON: fields stay in their order, repeated keys
are kept, and the place where the text stops being JSON is marked. A reader that goes through a
draft in order meets a misfit and a syntax error in the order in which the text has them.

Two kinds of things are well-formed and still have no value: a number beyond the doubles, and a
string with half a surrogate pair. They only matter where their value is asked for.
-/

namespace RenderFarm
namespace Json

inductive Draft where
  | null
  | bool (b : Bool)
  | int (n : Int)
  | float (x : Float)
  | str (s : String)
  /-- Well-formed, but without a value. -/
  | valueless
  /-- The text is not JSON from here on. -/
  | broken
  /-- `whole` is false if the text breaks after these items. -/
  | arr (items : List Draft) (whole : Bool)
  /-- A key without a value is absent. -/
  | obj (fields : List (Option String × Draft)) (whole : Bool)
  deriving Inhabited, Repr

namespace Draft

mutual

/-- A value as if written down. -/
def ofJson : Json → Draft
  | .null => .null
  | .bool b => .bool b
  | .int n => .int n
  | .float x => .float x
  | .str s => .str s
  | .arr items => .arr (ofItems items) true
  | .obj fields => .obj (ofFields fields) true

def ofItems : List Json → List Draft
  | [] => []
  | j :: js => ofJson j :: ofItems js

def ofFields : List (String × Json) → List (Option String × Draft)
  | [] => []
  | (k, j) :: fs => (some k, ofJson j) :: ofFields fs

end

mutual

/-- Whether the text is JSON here, with no regard to values. -/
def wellFormed : Draft → Bool
  | .broken => false
  | .arr items whole => itemsWellFormed items && whole
  | .obj fields whole => fieldsWellFormed fields && whole
  | _ => true

def itemsWellFormed : List Draft → Bool
  | [] => true
  | d :: ds => wellFormed d && itemsWellFormed ds

def fieldsWellFormed : List (Option String × Draft) → Bool
  | [] => true
  | (_, d) :: fs => wellFormed d && fieldsWellFormed fs

end

/-- The brackets that may be opened inside one more bracket; an absent depth is no limit. -/
def deeper : Option Nat → Option (Option Nat)
  | none => some none
  | some 0 => none
  | some (n + 1) => some (some n)

mutual

/-- The value, if there is one and no more brackets are open at a time than the depth allows. -/
def toJson? (depth : Option Nat) : Draft → Option Json
  | .null => some .null
  | .bool b => some (.bool b)
  | .int n => some (.int n)
  | .float x => some (.float x)
  | .str s => some (.str s)
  | .valueless => none
  | .broken => none
  | .arr items whole =>
    match deeper depth with
    | none => none
    | some depth => if whole then (itemsToJson? depth items).map .arr else none
  | .obj fields whole =>
    match deeper depth with
    | none => none
    | some depth => if whole then (fieldsToJson? depth fields).map .ofFields else none

def itemsToJson? (depth : Option Nat) : List Draft → Option (List Json)
  | [] => some []
  | d :: ds =>
    match toJson? depth d, itemsToJson? depth ds with
    | some j, some js => some (j :: js)
    | _, _ => none

def fieldsToJson? (depth : Option Nat) : List (Option String × Draft) → Option (List (String × Json))
  | [] => some []
  | (k, d) :: fs =>
    match k, toJson? depth d, fieldsToJson? depth fs with
    | some k, some j, some js => some ((k, j) :: js)
    | _, _, _ => none

end

/-- What the draft is, to one who expected something else. -/
def found? : Draft → Option Found
  | .null => some .null
  | .bool b => some (.bool b)
  | .int n => some (.int n)
  | .float x => some (.float x)
  | .str s => some (.str s)
  | .valueless => none
  | .broken => none
  | .arr .. => some .sequence
  | .obj .. => some .map

/-- The fault of a draft in the place of something else. -/
def refuse (d : Draft) (expected : String) : Fault :=
  match d.found? with
  | some found => .misfit (.wrongType found expected)
  | none => .syntaxError

end Draft
end Json
end RenderFarm
