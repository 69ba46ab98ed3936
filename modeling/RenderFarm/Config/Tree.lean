import RenderFarm.Fields

/-!
# RenderFarm.Config.Tree

A configuration as it is written, before it is understood: a tree of tables. Two trees are put
together key by key, and what the second one says counts.

* `overlay` lets an array of the second tree take the place of one in the first.
* `extend` appends it instead.
-/

namespace RenderFarm
namespace Config

inductive Tree where
  | text (s : String)
  /-- A single character in quotes of its own. -/
  | letter (c : Char)
  | bool (b : Bool)
  | int (n : Int)
  | float (x : Float)
  | array (items : List Tree)
  /-- The keys are in ascending order, each once. -/
  | table (entries : List (String × Tree))
  deriving Inhabited, Repr

namespace Tree

/-- A tree that holds the value at the end of a path of keys. -/
def nest : List String → Tree → Tree
  | [], t => t
  | k :: ks, t => .table [(k, nest ks t)]

/-- The entries of the tables `xs` and `ys`, where `join` puts the values of a common key
together. -/
def joinEntries (join : Tree → Tree → Tree) (ys : List (String × Tree)) :
    List (String × Tree) → List (String × Tree)
  | [] => ys
  | (k, x) :: xs =>
    Fields.set k (match Fields.find? k ys with
      | some y => join x y
      | none => x) (joinEntries join ys xs)

/-- Puts two trees together; `append` tells whether arrays are appended. `depth` exceeds the
depth of the trees. -/
def joinWithin (append : Bool) : (depth : Nat) → Tree → Tree → Tree
  | 0, _, y => y
  | depth + 1, x, y =>
    match x, y with
    | .table xs, .table ys => .table (joinEntries (joinWithin append depth) ys xs)
    | .array xs, .array ys => .array (if append then xs ++ ys else ys)
    | _, y => y

mutual

/-- The number of tables and arrays on the longest way to a leaf, plus one. -/
def depth : Tree → Nat
  | .array items => depthOfItems items + 1
  | .table entries => depthOfEntries entries + 1
  | _ => 1

def depthOfItems : List Tree → Nat
  | [] => 0
  | t :: ts => max t.depth (depthOfItems ts)

def depthOfEntries : List (String × Tree) → Nat
  | [] => 0
  | (_, t) :: es => max t.depth (depthOfEntries es)

end

/-- What `y` says counts, and its arrays take the place of those of `x`. -/
def overlay (x y : Tree) : Tree := joinWithin false x.depth x y

/-- What `y` says counts, and its arrays are appended to those of `x`. -/
def extend (x y : Tree) : Tree := joinWithin true x.depth x y

end Tree
end Config
end RenderFarm
