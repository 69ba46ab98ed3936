import RenderFarm.Json.Draft
import RenderFarm.Json.Reader
import RenderFarm.Word

/-!
# RenderFarm.Json.Decode

Decoders turn a draft into a value of a type, or say what does not fit. They go through the draft
in its order and stop at the first fault.

A draft has one of three origins, which differ in small things: a text nests only so deep; an
array that is too long is a syntax error in a text and a misfit elsewhere; and a variant of the
wrong kind is a syntax error in a text.
-/

namespace RenderFarm
namespace Json

inductive Origin where
  | text
  | value
  /-- Set aside while the variant of a value was looked for. -/
  | buffered
  deriving DecidableEq, Repr

/-- Where a decoder stands: the origin, and how many brackets may still be opened, if there is a
limit. -/
structure Place where
  origin : Origin
  depth : Option Nat
  deriving DecidableEq, Repr

/-- How many brackets may be open at a time in a text. -/
def textDepth : Nat := 127

def Decoder (α : Type) : Type := Place → Draft → Except Fault α

namespace Decoder

variable {α β σ : Type}

def map (f : α → β) (d : Decoder α) : Decoder β := fun p j =>
  match d p j with
  | .ok a => .ok (f a)
  | .error e => .error e

def misfit (m : Misfit) : Except Fault α := .error (.misfit m)

/-- Opens a bracket. -/
def enter (p : Place) : Except Fault Place :=
  match Draft.deeper p.depth with
  | some depth => .ok { p with depth }
  | none => .error .syntaxError

/-- The end of an array of which `taken` of `length` items were wanted. -/
def closeArray (p : Place) (taken length : Nat) (whole : Bool) : Except Fault Unit :=
  if taken < length then
    match p.origin with
    | .text => .error .syntaxError
    | .value => misfit (.wrongLength length "fewer elements in array")
    | .buffered =>
      misfit (.wrongLength length
        (toString taken ++ (if taken = 1 then " element" else " elements") ++ " in sequence"))
  else if whole then .ok () else .error .syntaxError

/-- A value that nobody asked for: only its being JSON matters. -/
def ignore (d : Draft) : Except Fault Unit :=
  if d.wellFormed then .ok () else .error .syntaxError

/-! ## Scalars -/

def string : Decoder String := fun _ d =>
  match d with
  | .str s => .ok s
  | d => .error (d.refuse "a string")

/-- A natural number below the limit, of a type with the given name. -/
def natural (limit : Nat) (type : String) : Decoder Nat := fun _ d =>
  match d with
  | .int n =>
    if 0 ≤ n ∧ n < limit then .ok n.toNat
    else misfit (.wrongValue (.int n) type)
  | d => .error (d.refuse type)

/-- A natural number of 64 bits. -/
def u64 : Decoder Nat := natural Word.size "u64"

/-- A natural number of 16 bits. -/
def u16 : Decoder Nat := natural Word.size16 "u16"

/-- Any value. -/
def json : Decoder Json := fun p d =>
  match d.toJson? p.depth with
  | some j => .ok j
  | none => .error .syntaxError

/-- Null stands for an absent value. -/
def option (d : Decoder α) : Decoder (Option α) := fun p j =>
  match j with
  | .null => .ok none
  | j => (d.map some) p j

/-- Null has no content. -/
def unit : Decoder Unit := fun _ d =>
  match d with
  | .null => .ok ()
  | d => .error (d.refuse "unit")

/-! ## Arrays -/

def items (d : Decoder α) (p : Place) : List Draft → Except Fault (List α)
  | [] => .ok []
  | j :: js =>
    match d p j with
    | .error e => .error e
    | .ok a =>
      match items d p js with
      | .error e => .error e
      | .ok as => .ok (a :: as)

def list (d : Decoder α) : Decoder (List α) := fun p j =>
  match j with
  | .arr js whole =>
    match enter p with
    | .error e => .error e
    | .ok p =>
      match items d p js with
      | .error e => .error e
      | .ok as => if whole then .ok as else .error .syntaxError
  | j => .error (j.refuse "a sequence")

/-! ## Variants without content -/

/-- The variant with the name. -/
def variantNamed (variants : List (String × α)) (name : String) : Except Fault α :=
  match variants.find? fun v => v.1 == name with
  | some v => .ok v.2
  | none => misfit (.unknownVariant name (variants.map Prod.fst))

/-- A name where the name of a variant is expected. -/
def variantName : Decoder String := fun _ d =>
  match d with
  | .str s => .ok s
  | d => .error (d.refuse "variant identifier")

/-- One of several named variants, written as its name or as an object with the name as only key
and null as its value. -/
def variant (variants : List (String × α)) : Decoder α := fun p d =>
  match d with
  | .str s => variantNamed variants s
  | .obj fields whole =>
    match p.origin with
    | .text =>
      match enter p with
      | .error e => .error e
      | .ok p =>
        match fields with
        | (some name, content) :: rest =>
          match variantNamed variants name with
          | .error e => .error e
          | .ok v =>
            match unit p content with
            | .error e => .error e
            | .ok () => if rest.isEmpty && whole then .ok v else .error .syntaxError
        | _ => .error .syntaxError
    | _ =>
      match fields with
      | [(some name, content)] =>
        match variantNamed variants name with
        | .error e => .error e
        | .ok v =>
          match unit p content with
          | .error e => .error e
          | .ok () => .ok v
      | _ => misfit (.wrongValue .map "map with a single key")
  | d =>
    match p.origin with
    | .text => .error .syntaxError
    | _ => .error (d.refuse "string or map")

/-! ## Records

A record is read into an accumulator `σ` that has a place for each field. It is an object with the
fields as keys, in any order, or an array with the fields in theirs. -/

/-- A field of a record. -/
structure Slot (σ : Type) where
  label : String
  aliases : List String := []
  /-- An absent field is a fault. -/
  required : Bool := true
  present : σ → Bool
  read : Place → Draft → σ → Except Fault σ

def Slot.answers (s : Slot σ) (key : String) : Bool := key == s.label || s.aliases.contains key

/-- A field that is stored with `set` when it is decoded. -/
def Slot.of (label : String) (present : σ → Bool) (d : Decoder α) (set : α → σ → σ) : Slot σ where
  label
  present
  read p j st :=
    match d p j with
    | .ok a => .ok (set a st)
    | .error e => .error e

/-- One field of an object. -/
def recordField (slots : List (Slot σ)) (p : Place) (key : String) (d : Draft) (st : σ) :
    Except Fault σ :=
  match slots.find? fun s => s.answers key with
  | some s => if s.present st then misfit (.duplicateField s.label) else s.read p d st
  | none =>
    match ignore d with
    | .ok () => .ok st
    | .error e => .error e

/-- The fields of an object in their order. -/
def recordFields (slots : List (Slot σ)) (p : Place) :
    List (Option String × Draft) → σ → Except Fault σ
  | [], st => .ok st
  | (none, _) :: _, _ => .error .syntaxError
  | (some key, d) :: fs, st =>
    match recordField slots p key d st with
    | .ok st => recordFields slots p fs st
    | .error e => .error e

/-- The items of an array as fields in their order; gives the fields that are left over. -/
def recordItems (p : Place) : List (Slot σ) → List Draft → σ → Except Fault (List (Slot σ) × σ)
  | [], _, st => .ok ([], st)
  | slots, [], st => .ok (slots, st)
  | s :: slots, d :: ds, st =>
    match s.read p d st with
    | .ok st => recordItems p slots ds st
    | .error e => .error e

/-- The position of the first required field among those left over. -/
def firstRequired (total : Nat) (left : List (Slot σ)) : Option Nat :=
  (left.findIdx? fun s => s.required).map fun i => total - left.length + i

/-- A record of the named type; `build` takes the accumulator once all required fields are in. -/
def record (type : String) (slots : List (Slot σ)) (empty : σ) (build : σ → Option α) :
    Decoder α := fun p d =>
  let finish (st : σ) : Except Fault α :=
    match build st with
    | some a => .ok a
    | none =>
      match slots.find? fun s => s.required && !s.present st with
      | some s => misfit (.missingField s.label)
      | none => .error .syntaxError
  match d with
  | .obj fields whole =>
    match enter p with
    | .error e => .error e
    | .ok p =>
      match recordFields slots p fields empty with
      | .error e => .error e
      | .ok st =>
        if whole then finish st else .error .syntaxError
  | .arr ds whole =>
    match enter p with
    | .error e => .error e
    | .ok p =>
      match recordItems p slots ds empty with
      | .error e => .error e
      | .ok (left, st) =>
        if left.isEmpty then
          match closeArray p slots.length ds.length whole with
          | .error e => .error e
          | .ok () => finish st
        else if !whole then .error .syntaxError
        else
          match firstRequired slots.length left with
          | some n =>
            misfit (.wrongLength n (type ++ " with " ++ toString slots.length ++
              (if slots.length = 1 then " element" else " elements")))
          | none => finish st
  | d => .error (d.refuse type)

end Decoder

/-- Decodes a value. -/
def decode {α : Type} (d : Decoder α) (j : Json) : Except Fault α :=
  d ⟨.value, none⟩ (.ofJson j)

/-- Decodes a text, which may have blanks around the value and nothing else. -/
def decodeText {α : Type} (d : Decoder α) (text : List Char) : Except Fault α :=
  let (draft, ended) := Reader.read text
  match d ⟨.text, some textDepth⟩ draft with
  | .error e => .error e
  | .ok a => if ended then .ok a else .error .syntaxError

end Json
end RenderFarm
