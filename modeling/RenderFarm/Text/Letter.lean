/-!
# RenderFarm.Text.Letter

Letters and digits of ASCII, and texts compared without regard to the case of such letters.
-/

namespace RenderFarm
namespace Text

def isDigit (c : Char) : Bool := '0' ≤ c && c ≤ '9'

def isUpper (c : Char) : Bool := 'A' ≤ c && c ≤ 'Z'

def isLower (c : Char) : Bool := 'a' ≤ c && c ≤ 'z'

def isAlphanumeric (c : Char) : Bool := isLower c || isUpper c || isDigit c

/-- The value of a digit in bases up to sixteen. -/
def digitValue? (base : Nat) (c : Char) : Option Nat :=
  let n :=
    if isDigit c then c.toNat - '0'.toNat
    else if 'a' ≤ c && c ≤ 'f' then c.toNat - 'a'.toNat + 10
    else if 'A' ≤ c && c ≤ 'F' then c.toNat - 'A'.toNat + 10
    else base
  if n < base then some n else none

def lower (c : Char) : Char := if isUpper c then Char.ofNat (c.toNat + 32) else c

/-- Whether two texts differ at most in the case of their letters. -/
def sameLetters (s t : String) : Bool := s.toList.map lower == t.toList.map lower

end Text
end RenderFarm
