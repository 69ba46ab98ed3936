import RenderFarm.Fields

/-!
# RenderFarm.Json.Basic

JSON values. A number is an exact integer when it was written as one that fits a 64-bit word,
signed or unsigned, and a double otherwise. The fields of an object are kept in ascending order
of their keys, each key once.
-/

namespace RenderFarm

inductive Json where
  | null
  | bool (b : Bool)
  | int (n : Int)
  | float (x : Float)
  | str (s : String)
  | arr (items : List Json)
  | obj (fields : List (String × Json))
  deriving Inhabited, Repr, BEq

namespace Json

/-- The object with the given fields; of a repeated key the last value counts. -/
def ofFields (fs : List (String × Json)) : Json := .obj (Fields.ofList fs)

/-- The value of a field of an object. -/
def field? (j : Json) (k : String) : Option Json :=
  match j with
  | .obj fs => Fields.find? k fs
  | _ => none

end Json
end RenderFarm
