import RenderFarm.Decimal.Shortest
import RenderFarm.Word

/-!
# RenderFarm.Decimal.Style

How a double is laid out as text, given its shortest decimal: with a point in its place, or in
scientific notation when the leading digit is far from it.
-/

namespace RenderFarm
namespace Decimal

/-- The decisions of a layout. -/
structure Style where
  /-- Exponents of the leading digit for which the point is put in its place. -/
  positional : Int → Bool
  /-- An integral value ends in a point and a zero. -/
  pointZero : Bool
  /-- The least number of digits of an exponent. -/
  exponentWidth : Nat
  tie : Tie

namespace Style

def zeros (n : Nat) : List Char := List.replicate n '0'

/-- The digits with the point in its place. -/
def plain (st : Style) (digits : List Char) (lead : Int) : List Char :=
  let n : Int := digits.length
  if lead < 0 then '0' :: '.' :: (zeros (-lead - 1).toNat ++ digits)
  else if n ≤ lead + 1 then
    digits ++ zeros (lead + 1 - n).toNat ++ (if st.pointZero then ['.', '0'] else [])
  else digits.take (lead + 1).toNat ++ '.' :: digits.drop (lead + 1).toNat

/-- One digit, the others after a point, and the exponent with its sign. -/
def scientific (st : Style) (digits : List Char) (lead : Int) : List Char :=
  let exponent := (toString lead.natAbs).toList
  let mantissa := match digits with
    | [] => []
    | [d] => [d]
    | d :: ds => d :: '.' :: ds
  mantissa ++ ['e', if lead < 0 then '-' else '+'] ++
    zeros (st.exponentWidth - exponent.length) ++ exponent

/-- The layout of a positive finite double. -/
def layout (st : Style) (x : Float) : List Char :=
  let s := shortest st.tie x
  let digits := (toString s.coefficient).toList
  let lead := s.exponent + digits.length - 1
  if st.positional lead then st.plain digits lead else st.scientific digits lead

/-- The text of a double. -/
def render (st : Style) (x : Float) : String :=
  if x.isNaN then "NaN"
  else
    let sign := if Word.half ≤ x.toBits.toNat then ['-'] else []
    let body :=
      if x.isInf then ['i', 'n', 'f']
      else if x == 0 then '0' :: (if st.pointZero then ['.', '0'] else [])
      else st.layout x
    String.ofList (sign ++ body)

end Style

/-- The text of a double in prose: never an exponent, integral values without a point. -/
def prose : Style := ⟨fun _ => true, false, 0, .up⟩

end Decimal
end RenderFarm
