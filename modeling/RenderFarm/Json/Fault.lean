import RenderFarm.Decimal.Style
import RenderFarm.Text.Quoted

/-!
# RenderFarm.Json.Fault

Why a JSON text or value is no message: the text is not JSON, or what it says does not fit.
-/

namespace RenderFarm
namespace Json

/-- Numbers in JSON: the point stays where it is for values of ordinary size. -/
def numberStyle : Decimal.Style where
  positional e := -5 ≤ e && e ≤ 15
  pointZero := true
  exponentWidth := 2
  tie := .toEven

/-- The kind of thing that was found in the place of another. -/
inductive Found where
  | null
  | bool (b : Bool)
  | int (n : Int)
  | float (x : Float)
  | str (s : String)
  | sequence
  | map
  deriving DecidableEq, Repr

def Found.describe : Found → String
  | .null => "null"
  | .bool b => "boolean `" ++ toString b ++ "`"
  | .int n => "integer `" ++ toString n ++ "`"
  | .float x => "floating point `" ++ numberStyle.render x ++ "`"
  | .str s => "string " ++ Text.quote s
  | .sequence => "sequence"
  | .map => "map"

/-- What does not fit. -/
inductive Misfit where
  | wrongType (found : Found) (expected : String)
  | wrongValue (found : Found) (expected : String)
  | wrongLength (length : Nat) (expected : String)
  | missingField (name : String)
  | duplicateField (name : String)
  | unknownVariant (name : String) (known : List String)
  | noVariant (type : String)
  deriving DecidableEq, Repr

/-- Names in backquotes, as alternatives. -/
def alternatives (names : List String) : String :=
  let quoted := names.map fun n => "`" ++ n ++ "`"
  match quoted with
  | [] => "there are no variants"
  | [a] => "expected " ++ a
  | [a, b] => "expected " ++ a ++ " or " ++ b
  | _ => "expected one of " ++ ", ".intercalate quoted

def Misfit.message : Misfit → String
  | .wrongType found expected => "invalid type: " ++ found.describe ++ ", expected " ++ expected
  | .wrongValue found expected => "invalid value: " ++ found.describe ++ ", expected " ++ expected
  | .wrongLength length expected =>
    "invalid length " ++ toString length ++ ", expected " ++ expected
  | .missingField name => "missing field `" ++ name ++ "`"
  | .duplicateField name => "duplicate field `" ++ name ++ "`"
  | .unknownVariant name known => "unknown variant `" ++ name ++ "`, " ++ alternatives known
  | .noVariant type => "data did not match any variant of untagged enum " ++ type

inductive Fault where
  /-- The text is not JSON, or nests too deeply. -/
  | syntaxError
  /-- The text is JSON, but not of the kind asked for. -/
  | misfit (m : Misfit)
  deriving DecidableEq, Repr

end Json
end RenderFarm
