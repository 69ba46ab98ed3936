import RenderFarm.Config.Tree

/-!
# RenderFarm.Toml.Document

How the statements of a TOML document make one tree. A table may be written under its own header,
be implied by the header of a table inside it, or by a dotted key; each allows other additions
later, and no key is given twice.
-/

namespace RenderFarm
namespace Toml

open Config (Tree)

inductive TableKind where
  /-- Written in full: under its own header, or in braces. -/
  | given
  /-- Implied by the header of a table inside it. -/
  | implied
  /-- Implied by a dotted key. -/
  | dotted
  deriving DecidableEq, Repr

inductive Node where
  | value (t : Tree)
  | table (kind : TableKind) (entries : List (String × Node))
  /-- The elements are tables. -/
  | tables (items : List Node)

namespace Node

def emptyTable (kind : TableKind) : Node := .table kind []

/-- Changes the last element of a list. -/
def changeLast {α : Type} (f : α → Option α) : List α → Option (List α)
  | [] => none
  | [a] => (f a).map fun a => [a]
  | a :: as => (changeLast f as).map (a :: ·)

/-- Whether a way through the table may go on, if the keys of the way are dotted. -/
def passable (dotted : Bool) (kind : TableKind) : Bool := !dotted || kind != .given

/-- Changes the table at the end of a path. Absent tables on the way are implied. The last table
stands for an array of tables. -/
def change (dotted : Bool) (f : TableKind → List (String × Node) → Option Node) :
    List String → Node → Option Node
  | [], .table kind entries => f kind entries
  | [], _ => none
  | k :: ks, .table kind entries =>
    let stepInto (child : Node) : Option Node :=
      match child with
      | .table kind _ => if passable dotted kind then change dotted f ks child else none
      | .tables items => (changeLast (change dotted f ks) items).map .tables
      | .value _ => none
    let child :=
      match Fields.find? k entries with
      | some child => stepInto child
      | none => change dotted f ks (emptyTable (if dotted then .dotted else .implied))
    child.map fun child => .table kind (Fields.set k child entries)
  | _ :: _, _ => none

/-- An entry under a key that may be dotted: `path` is in front of the last dot. -/
structure Entry where
  path : List String
  key : String
  value : Tree

/-- Adds an entry to a table. -/
def assign (n : Node) (e : Entry) : Option Node :=
  n.change true (fun kind entries =>
    if (kind == .dotted) == e.path.isEmpty then none
    else if (Fields.find? e.key entries).isSome then none
    else some (.table kind (Fields.set e.key (.value e.value) entries))) e.path

/-- Adds entries one after the other. -/
def assignAll : List Entry → Node → Option Node
  | [], n => some n
  | e :: es, n =>
    match n.assign e with
    | some n => assignAll es n
    | none => none

mutual

def toTree : Node → Tree
  | .value t => t
  | .table _ entries => .table (entriesToTrees entries)
  | .tables items => .array (itemsToTrees items)

def entriesToTrees : List (String × Node) → List (String × Tree)
  | [] => []
  | (k, n) :: es => (k, n.toTree) :: entriesToTrees es

def itemsToTrees : List Node → List Tree
  | [] => []
  | n :: ns => n.toTree :: itemsToTrees ns

end

end Node

/-- The part of a document under one header. -/
structure Section where
  path : List String
  key : String
  /-- The header adds an element to an array of tables. -/
  element : Bool
  entries : List Node.Entry

namespace Section

/-- Adds the section to the table that its key stands in. -/
def place (s : Section) (kind : TableKind) (siblings : List (String × Node)) : Option Node :=
  let put (n : Node) : Node := .table kind (Fields.set s.key n siblings)
  if s.element then
    match Node.assignAll s.entries (Node.emptyTable .given), Fields.find? s.key siblings with
    | some table, none => some (put (.tables [table]))
    | some table, some (.tables items) => some (put (.tables (items ++ [table])))
    | _, _ => none
  else
    match Fields.find? s.key siblings with
    | none => (Node.assignAll s.entries (Node.emptyTable .given)).map put
    | some (.table .implied entries) => (Node.assignAll s.entries (.table .given entries)).map put
    | some _ => none

end Section

/-- Adds sections one after the other. -/
def addSections : List Section → Node → Option Node
  | [], root => some root
  | s :: ss, root =>
    match root.change false s.place s.path with
    | some root => addSections ss root
    | none => none

/-- The tree of a document, from the entries in front of its first header and its sections. -/
def assemble (entries : List Node.Entry) (sections : List Section) : Option Tree :=
  match Node.assignAll entries (Node.emptyTable .given) with
  | some root => (addSections sections root).map Node.toTree
  | none => none

end Toml
end RenderFarm
