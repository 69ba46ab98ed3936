/-!
# RenderFarm.Decimal.Shortest

The shortest decimal that reads back as a given double.

A positive finite double is `m · 2 ^ q`. The reals that round to it form an interval around it,
which holds its ends when `m` is even. For one digit, two digits, and so on up to seventeen, the
two neighbours of the value on that decimal grid are tried; the first grid with a neighbour in
the interval gives the digits, and of two neighbours the nearer one.
-/

namespace RenderFarm
namespace Decimal

/-- Which of two equally near neighbours is taken. -/
inductive Tie where
  | toEven
  | up
  deriving DecidableEq, Repr

/-- The number `coefficient · 10 ^ exponent`. -/
structure Scaled where
  coefficient : Nat
  exponent : Int
  deriving DecidableEq, Repr

/-- A positive finite double in quarters of its unit: the value is `center · 2 ^ scale`, and the
reals between `low` and `high`, on the same scale, round to it. -/
structure Interval where
  low : Nat
  center : Nat
  high : Nat
  scale : Int
  closed : Bool
  deriving DecidableEq, Repr

/-- The number of fractions of a double; the bits above them are its exponent. -/
abbrev fractionCount : Nat := 0x10000000000000

/-- The interval of the double whose bits, without the sign, are given. -/
def Interval.ofBits (bits : Nat) : Interval :=
  let fraction := bits % fractionCount
  let exponent := bits / fractionCount
  let m := if exponent = 0 then fraction else fraction + fractionCount
  let q : Int := (max exponent 1 : Nat) - 1075
  -- below a power of two the doubles lie half as far apart
  let below := if fraction = 0 ∧ 1 < exponent then 1 else 2
  ⟨4 * m - below, 4 * m, 4 * m + 2, q - 2, m % 2 = 0⟩

/-- The number of decimal digits of `n`. -/
def digitCount (n : Nat) : Nat := (Nat.toDigits 10 n).length

/-- `n · 2 ^ scale` over the unit `10 ^ u`, as a fraction with the given denominator. -/
def numerator (scale u : Int) (n : Nat) : Nat := n * Nat.pow 2 scale.toNat * Nat.pow 10 (-u).toNat

def denominator (scale u : Int) : Nat := Nat.pow 2 (-scale).toNat * Nat.pow 10 u.toNat

/-- The exponent of the leading digit. -/
def leadingExponent (i : Interval) : Int :=
  (digitCount (numerator i.scale (-330) i.center / denominator i.scale (-330)) : Int) - 331

/-- The nearer of the two neighbours on the grid `10 ^ u` that lie in the interval. -/
def onGrid (tie : Tie) (i : Interval) (u : Int) : Option Nat :=
  let den := denominator i.scale u
  let center := numerator i.scale u i.center
  let inside (c : Nat) : Bool :=
    if i.closed then
      numerator i.scale u i.low ≤ c * den && c * den ≤ numerator i.scale u i.high
    else numerator i.scale u i.low < c * den && c * den < numerator i.scale u i.high
  let c := center / den
  match inside c, inside (c + 1) with
  | true, true =>
    let rest := 2 * (center % den)
    if rest < den then some c
    else if den < rest then some (c + 1)
    else match tie with
      | .up => some (c + 1)
      | .toEven => some (if c % 2 = 0 then c else c + 1)
  | true, false => some c
  | false, true => some (c + 1)
  | false, false => none

/-- Moves factors of ten from the coefficient to the exponent. -/
def strip : Nat → Scaled → Scaled
  | 0, s => s
  | fuel + 1, s =>
    if s.coefficient % 10 = 0 ∧ s.coefficient ≠ 0 then
      strip fuel ⟨s.coefficient / 10, s.exponent + 1⟩
    else s

/-- Tries the grids for `n` digits, `n + 1` digits, and so on, `fuel` of them. -/
def search (tie : Tie) (i : Interval) (lead : Int) : Nat → Nat → Scaled
  | _, 0 => ⟨0, 0⟩
  | n, fuel + 1 =>
    let u := lead - (n : Int) + 1
    match onGrid tie i u with
    | some c => strip 20 ⟨c, u⟩
    | none => search tie i lead (n + 1) fuel

/-- The shortest decimal of a positive finite double. -/
def shortest (tie : Tie) (x : Float) : Scaled :=
  let i := Interval.ofBits (x.abs.toBits.toNat)
  search tie i (leadingExponent i) 1 17

end Decimal
end RenderFarm
