import RenderFarm.Config.Tree
import RenderFarm.Toml.Text
import RenderFarm.Word

/-!
# RenderFarm.Toml.Number

The numbers of a TOML document. Single underscores may stand between digits. An integer fits 64
bits with a sign; a double is the one nearest to what is written, and no finite text stands for
positive infinity.
-/

namespace RenderFarm
namespace Toml

open Text (digitValue?)

/-- Digits of the base, with single underscores between them; most significant first. -/
def digits (base : Nat) : List Char → List Nat × List Char
  | [] => ([], [])
  | c :: cs =>
    match digitValue? base c with
    | none => ([], c :: cs)
    | some d =>
      match cs with
      | '_' :: c' :: cs' =>
        match digitValue? base c' with
        | some _ =>
          let (ds, rest) := digits base (c' :: cs')
          (d :: ds, rest)
        | none => ([d], cs)
      | cs =>
        let (ds, rest) := digits base cs
        (d :: ds, rest)

def ofDigits (base : Nat) (ds : List Nat) : Nat := ds.foldl (fun n d => n * base + d) 0

/-- A sign, if there is one; tells whether it is a minus. -/
def sign : List Char → Bool × List Char
  | '-' :: cs => (true, cs)
  | '+' :: cs => (false, cs)
  | cs => (false, cs)

/-- Decimal digits without a zero in front of others. -/
def plainDigits (cs : List Char) : Scan (List Nat) :=
  match digits 10 cs with
  | ([], _) => none
  | (0 :: _ :: _, _) => none
  | (ds, rest) => some (ds, rest)

/-- An integer of 64 bits. -/
def fit? (n : Int) : Option Int := if -(Word.half : Int) ≤ n ∧ n < Word.half then some n else none

/-- A natural number in a base other than ten, after its mark. -/
def based (base : Nat) (cs : List Char) : Scan Int :=
  match digits base cs with
  | ([], _) => none
  | (ds, rest) => (fit? (ofDigits base ds)).map fun n => (n, rest)

def integer : List Char → Scan Int
  | '0' :: 'x' :: cs => based 16 cs
  | '0' :: 'o' :: cs => based 8 cs
  | '0' :: 'b' :: cs => based 2 cs
  | cs =>
    let (negative, cs) := sign cs
    match plainDigits cs with
    | none => none
    | some (ds, rest) =>
      let n : Int := ofDigits 10 ds
      (fit? (if negative then -n else n)).map fun n => (n, rest)

/-- The double nearest to `m * 10 ^ e`. -/
def nearest (m : Nat) (e : Int) : Float :=
  if m = 0 then 0
  else
    let magnitude := (Nat.toDigits 10 m).length + e
    if 400 < magnitude then Float.ofScientific 1 false 400
    else if magnitude < -400 then 0
    else if 0 ≤ e then Float.ofScientific m false e.toNat
    else Float.ofScientific m true (-e).toNat

/-- The digits after a point, and how many there are. -/
def fraction : List Char → Scan (List Nat)
  | '.' :: cs =>
    match digits 10 cs with
    | ([], _) => none
    | (ds, rest) => some (ds, rest)
  | _ => none

/-- An exponent with its mark. -/
def exponent : List Char → Scan Int
  | c :: cs =>
    if c = 'e' || c = 'E' then
      let (negative, cs) := sign cs
      match digits 10 cs with
      | ([], _) => none
      | (ds, rest) => some (if negative then -(ofDigits 10 ds : Int) else ofDigits 10 ds, rest)
    else none
  | [] => none

/-- A double, unless it is too large. -/
def ofDecimal (negative : Bool) (whole frac : List Nat) (e : Int) (rest : List Char) :
    Scan Float :=
  let x := nearest (ofDigits 10 (whole ++ frac)) (e - frac.length)
  if negative then some (-x, rest) else if x.isInf then none else some (x, rest)

def infinity : Float := Float.ofScientific 1 false 400

def notNumber : Float := 0.0 / 0.0

/-- A double: a number with a fraction or an exponent, infinity, or what is not a number. -/
def float (cs : List Char) : Scan Float :=
  let (negative, cs) := sign cs
  match cs with
  | 'i' :: 'n' :: 'f' :: rest => some (if negative then -infinity else infinity, rest)
  | 'n' :: 'a' :: 'n' :: rest => some (notNumber, rest)
  | cs =>
    match plainDigits cs with
    | none => none
    | some (whole, cs) =>
      match fraction cs with
      | some (frac, cs) =>
        match exponent cs with
        | some (e, rest) => ofDecimal negative whole frac e rest
        | none => ofDecimal negative whole frac 0 cs
      | none =>
        match exponent cs with
        | some (e, rest) => ofDecimal negative whole [] e rest
        | none => none

end Toml
end RenderFarm
