/-!
# RenderFarm.OrderedMap

Finite maps that remember the order in which their keys were first inserted.

* `insert` replaces the value of a present key where it stands, and appends an absent key.
* `erase` closes the gap, so the other keys keep their order.
* `find?` is the view: each operation is described by what it does to `find?` and to `keys`.
-/

namespace RenderFarm

/-- A map from `κ` to `α` with its keys in order of first insertion. -/
structure OrderedMap (κ α : Type) where
  entries : List (κ × α)
  nodup : (entries.map Prod.fst).Nodup

namespace OrderedMap

variable {κ α β : Type}

def empty : OrderedMap κ α := ⟨[], List.nodup_nil⟩

instance : Inhabited (OrderedMap κ α) := ⟨empty⟩

def keys (m : OrderedMap κ α) : List κ := m.entries.map Prod.fst

def values (m : OrderedMap κ α) : List α := m.entries.map Prod.snd

def size (m : OrderedMap κ α) : Nat := m.entries.length

def isEmpty (m : OrderedMap κ α) : Bool := m.entries.isEmpty

/-- Changes every value, keeping the keys. -/
def mapValues (f : κ → α → β) (m : OrderedMap κ α) : OrderedMap κ β where
  entries := m.entries.map fun e => (e.1, f e.1 e.2)
  nodup := by simpa [Function.comp_def] using m.nodup

/-- Keeps the entries that satisfy `p`. -/
def filter (p : κ → α → Bool) (m : OrderedMap κ α) : OrderedMap κ α where
  entries := m.entries.filter fun e => p e.1 e.2
  nodup := m.nodup.sublist (List.Sublist.map _ List.filter_sublist)

variable [DecidableEq κ]

/-- The value of the first entry with the key. -/
def lookup (k : κ) : List (κ × α) → Option α
  | [] => none
  | (k', a) :: es => if k' = k then some a else lookup k es

def find? (m : OrderedMap κ α) (k : κ) : Option α := lookup k m.entries

def contains (m : OrderedMap κ α) (k : κ) : Bool := (m.find? k).isSome

/-- Replaces the value of the key where it stands, or appends the key. -/
def put (k : κ) (a : α) : List (κ × α) → List (κ × α)
  | [] => [(k, a)]
  | (k', a') :: es => if k' = k then (k, a) :: es else (k', a') :: put k a es

/-- Drops the first entry with the key. -/
def drop (k : κ) : List (κ × α) → List (κ × α)
  | [] => []
  | (k', a) :: es => if k' = k then es else (k', a) :: drop k es

theorem drop_sublist (k : κ) (es : List (κ × α)) : (drop k es).Sublist es := by
  induction es with
  | nil => exact List.Sublist.slnil
  | cons e es ih =>
    simp only [drop]
    split
    · exact List.sublist_cons_self _ _
    · exact ih.cons_cons _

theorem map_fst_put (k : κ) (a : α) (es : List (κ × α)) :
    (put k a es).map Prod.fst =
      if k ∈ es.map Prod.fst then es.map Prod.fst else es.map Prod.fst ++ [k] := by
  induction es with
  | nil => simp [put]
  | cons e es ih =>
    simp only [put]
    split
    · rename_i h
      simp [h]
    · rename_i h
      have hk : ¬ k = e.1 := fun hk => h hk.symm
      simp only [List.map_cons, ih, List.mem_cons, hk, false_or]
      split <;> simp

theorem nodup_put (k : κ) (a : α) {es : List (κ × α)} (h : (es.map Prod.fst).Nodup) :
    ((put k a es).map Prod.fst).Nodup := by
  rw [map_fst_put]
  split
  · exact h
  · rename_i hk
    refine List.nodup_append.2 ⟨h, by simp, ?_⟩
    intro x hx y hy hxy
    rw [List.mem_singleton.1 hy] at hxy
    exact hk (hxy ▸ hx)

def insert (m : OrderedMap κ α) (k : κ) (a : α) : OrderedMap κ α :=
  ⟨put k a m.entries, nodup_put k a m.nodup⟩

def erase (m : OrderedMap κ α) (k : κ) : OrderedMap κ α :=
  ⟨drop k m.entries, m.nodup.sublist ((drop_sublist k m.entries).map _)⟩

/-- Inserts the entries one after the other. -/
def ofList (es : List (κ × α)) : OrderedMap κ α :=
  es.foldl (fun m e => m.insert e.1 e.2) empty

/-- Inserts the value unless the key is present. -/
def insertNew (m : OrderedMap κ α) (k : κ) (a : α) : OrderedMap κ α :=
  if m.contains k then m else m.insert k a

end OrderedMap
end RenderFarm
