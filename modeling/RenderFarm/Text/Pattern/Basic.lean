import RenderFarm.Text.Blank
import RenderFarm.Text.Letter

/-!
# RenderFarm.Text.Pattern.Basic

Patterns of texts: regular expressions with conditions on where in the text they stand.

* `Pattern.derive` is what is left of a pattern after a character.
* `Pattern.occursIn` tells whether a pattern matches anywhere in a text.
-/

namespace RenderFarm
namespace Text

/-- A set of characters. Digits and words are those of ASCII. -/
inductive CharClass where
  | range (first last : Char)
  | digit
  | word
  | blank
  | union (a b : CharClass)
  | complement (a : CharClass)
  deriving DecidableEq, Repr

namespace CharClass

def one (c : Char) : CharClass := .range c c

def nothing : CharClass := .range '\x01' '\x00'

def isWord (c : Char) : Bool := isAlphanumeric c || c = '_'

def contains : CharClass → Char → Bool
  | range first last, c => first ≤ c && c ≤ last
  | digit, c => isDigit c
  | word, c => isWord c
  | blank, c => isBlank c
  | union a b, c => a.contains c || b.contains c
  | complement a, c => !a.contains c

end CharClass

/-- A place in a text: the characters on both sides of it, if there are any. -/
structure Place where
  before : Option Char
  after : Option Char
  deriving DecidableEq, Repr

/-- A condition on a place. -/
inductive Anchor where
  | start
  | stop
  /-- A word begins or ends here. -/
  | wordEdge
  | noWordEdge
  deriving DecidableEq, Repr

def Anchor.holds (p : Place) : Anchor → Bool
  | start => p.before.isNone
  | stop => p.after.isNone
  | wordEdge => p.before.any CharClass.isWord != p.after.any CharClass.isWord
  | noWordEdge => p.before.any CharClass.isWord == p.after.any CharClass.isWord

inductive Pattern where
  | never
  | empty
  | anchor (a : Anchor)
  | char (c : CharClass)
  | seq (a b : Pattern)
  | alt (a b : Pattern)
  | star (a : Pattern)
  deriving DecidableEq, Repr

namespace Pattern

/-- One after the other. -/
def followedBy (a b : Pattern) : Pattern :=
  if a = never || b = never then never else if a = empty then b else seq a b

/-- One of the two. -/
def orElse (a b : Pattern) : Pattern :=
  if a = never || a = b then b else if b = never then a else alt a b

/-- Whether the pattern matches the empty text at this place. -/
def nullable (p : Place) : Pattern → Bool
  | never => false
  | empty => true
  | anchor a => a.holds p
  | char _ => false
  | seq a b => a.nullable p && b.nullable p
  | alt a b => a.nullable p || b.nullable p
  | star _ => true

/-- What has to follow the character `c`, which stands after the place `p`. -/
def derive (p : Place) (c : Char) : Pattern → Pattern
  | never | empty | anchor _ => never
  | char cs => if cs.contains c then empty else never
  | seq a b =>
    let rest := (a.derive p c).followedBy b
    if a.nullable p then rest.orElse (b.derive p c) else rest
  | alt a b => (a.derive p c).orElse (b.derive p c)
  | star a => (a.derive p c).followedBy (star a)

/-- Whether some beginning of the text matches, after the character `before`. -/
def matchesBeginning : Pattern → (before : Option Char) → List Char → Bool
  | r, before, [] => r.nullable ⟨before, none⟩
  | r, before, c :: cs =>
    r.nullable ⟨before, some c⟩ ||
      (r.derive ⟨before, some c⟩ c).matchesBeginning (some c) cs

/-- Whether some part of the text matches, after the character `before`. -/
def occursAfter (r : Pattern) : (before : Option Char) → List Char → Bool
  | before, [] => r.matchesBeginning before []
  | before, c :: cs => r.matchesBeginning before (c :: cs) || r.occursAfter (some c) cs

def occursIn (r : Pattern) (s : String) : Bool := r.occursAfter none s.toList

/-! ## Repetition -/

def optional (a : Pattern) : Pattern := empty.orElse a

def plus (a : Pattern) : Pattern := a.followedBy (star a)

def power (a : Pattern) : Nat → Pattern
  | 0 => empty
  | n + 1 => a.followedBy (a.power n)

/-- At most `n` times. -/
def upTo (a : Pattern) : Nat → Pattern
  | 0 => empty
  | n + 1 => (a.followedBy (a.upTo n)).optional

end Pattern
end Text
end RenderFarm
