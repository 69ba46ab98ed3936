import RenderFarm.Toml.Text

/-!
# RenderFarm.Toml.Moment

The dates and times of a TOML document: a date, a time of day, or both, and with both perhaps the
offset of a time zone. No setting is a moment, so only its extent matters.
-/

namespace RenderFarm
namespace Toml

/-- A number of exactly `n` digits. -/
def fixedNumber : (n acc : Nat) → List Char → Scan Nat
  | 0, acc, cs => some (acc, cs)
  | _ + 1, _, [] => none
  | n + 1, acc, c :: cs => if Text.isDigit c then fixedNumber n (acc * 10 + (c.toNat - 48)) cs else none

/-- A number of two digits from `low` to `high`. -/
def twoDigits (low high : Nat) (cs : List Char) : Scan Nat :=
  match fixedNumber 2 0 cs with
  | some (n, rest) => if low ≤ n && n ≤ high then some (n, rest) else none
  | none => none

/-- The text after the character. -/
def after? (c : Char) : List Char → Option (List Char)
  | c' :: cs => if c' = c then some cs else none
  | [] => none

def isLeap (year : Nat) : Bool := year % 4 = 0 && (year % 100 ≠ 0 || year % 400 = 0)

def daysIn (year month : Nat) : Nat :=
  if month = 2 then (if isLeap year then 29 else 28)
  else if month = 4 || month = 6 || month = 9 || month = 11 then 30
  else 31

/-- The text after a date. -/
def skipDate (cs : List Char) : Option (List Char) := do
  let (year, cs) ← fixedNumber 4 0 cs
  let cs ← after? '-' cs
  let (month, cs) ← twoDigits 1 12 cs
  let cs ← after? '-' cs
  let (_, cs) ← twoDigits 1 (daysIn year month) cs
  pure cs

/-- The text after fractions of a second, if there are any. -/
def skipFraction : List Char → Option (List Char)
  | '.' :: cs => if (cs.takeWhile Text.isDigit).isEmpty then none else some (cs.dropWhile Text.isDigit)
  | cs => some cs

/-- The text after a time of day. -/
def skipTime (cs : List Char) : Option (List Char) := do
  let (_, cs) ← twoDigits 0 23 cs
  let cs ← after? ':' cs
  let (_, cs) ← twoDigits 0 59 cs
  let cs ← after? ':' cs
  let (_, cs) ← twoDigits 0 60 cs
  skipFraction cs

/-- The text after the offset of a time zone, if there is one. -/
def skipOffset (cs : List Char) : Option (List Char) :=
  match cs with
  | 'Z' :: cs => some cs
  | 'z' :: cs => some cs
  | '+' :: cs => hours cs
  | '-' :: cs => hours cs
  | cs => some cs
where
  hours (cs : List Char) : Option (List Char) := do
    let (_, cs) ← twoDigits 0 23 cs
    let cs ← after? ':' cs
    let (_, cs) ← twoDigits 0 59 cs
    pure cs

/-- The text after a time of day that follows a date. -/
def skipTimeOfDate (cs : List Char) : Option (List Char) :=
  match cs with
  | c :: cs' =>
    if c = 'T' || c = 't' || c = ' ' then
      match skipTime cs' with
      | some rest => skipOffset rest
      | none => if c = ' ' then some cs else none
    else some cs
  | [] => some []

/-- The text after a moment. -/
def skipMoment (cs : List Char) : Option (List Char) :=
  match skipDate cs with
  | some cs => skipTimeOfDate cs
  | none => skipTime cs

end Toml
end RenderFarm
