import RenderFarm.Json.Decode
import RenderFarm.Proofs.Json.Values

/-!
# RenderFarm.Proofs.Json.Decoding

What the decoders make of the value that an encoder has made. `Reads d j a` says that `d` decodes
`j` as `a`, whether `j` stands by itself or was set aside; each decoder reads what its parts read.

* `reads_list`, `reads_null`, `Reads.option`: lists and absent values.
* `Fills`: what the fields of an object leave in the accumulator of a record.
* `reads_record`: a record whose fields fill the accumulator with all that it is built from.
-/

namespace RenderFarm
namespace Json
namespace Decoder

variable {α β σ : Type}

/-- The decoder makes `a` of the value, without a limit to how deep it nests. -/
def Reads (d : Decoder α) (j : Json) (a : α) : Prop :=
  ∀ origin, d ⟨origin, none⟩ (.ofJson j) = .ok a

theorem Reads.decode {d : Decoder α} {j : Json} {a : α} (h : Reads d j a) :
    Json.decode d j = .ok a :=
  h .value

theorem Reads.map {d : Decoder α} {j : Json} {a : α} (h : Reads d j a) (f : α → β) :
    Reads (d.map f) j (f a) :=
  fun origin => by simp only [Decoder.map, h origin]

/-! ## Scalars -/

theorem reads_string (s : String) : Reads string (.str s) s := fun _ => rfl

theorem reads_natural {limit n : Nat} (type : String) (h : n < limit) :
    Reads (natural limit type) (.int n) n := fun _ => by
  have hn : (0 : Int) ≤ n ∧ (n : Int) < limit := ⟨Int.natCast_nonneg n, Int.ofNat_lt.2 h⟩
  simp only [natural, Draft.ofJson, hn, and_self, if_true, Int.toNat_natCast]

theorem reads_json {j : Json} (h : j.InOrder) : Reads json j j := fun _ => by
  simp only [json, Draft.toJson?_ofJson h]

theorem reads_null (d : Decoder α) : Reads (option d) .null none := fun _ => rfl

theorem Reads.option {d : Decoder α} {j : Json} {a : α} (h : Reads d j a) (hj : j ≠ .null) :
    Reads (option d) j (some a) := fun origin => by
  cases j with
  | null => exact absurd rfl hj
  | _ => exact (h.map some) origin

theorem reads_variant {variants : List (String × α)} {s : String} {a : α}
    (h : variants.find? (fun v => v.1 == s) = some (s, a)) : Reads (variant variants) (.str s) a :=
  fun _ => by simp only [variant, Draft.ofJson, variantNamed, h]

/-! ## Arrays -/

theorem items_ofItems {d : Decoder α} {f : α → Json} {as : List α} {origin : Origin}
    (h : ∀ a ∈ as, Reads d (f a) a) :
    items d ⟨origin, none⟩ (Draft.ofItems (as.map f)) = .ok as := by
  induction as with
  | nil => rfl
  | cons a as ih =>
    simp only [List.map_cons, Draft.ofItems, items, h a List.mem_cons_self origin,
      ih fun b hb => h b (List.mem_cons_of_mem _ hb)]

theorem reads_list {d : Decoder α} {f : α → Json} {as : List α} (h : ∀ a ∈ as, Reads d (f a) a) :
    Reads (list d) (.arr (as.map f)) as := fun _ => by
  simp only [list, Draft.ofJson, enter, Draft.deeper, items_ofItems h, if_true]

/-! ## Records -/

/-- The fields of an object, in their order, take the accumulator of a record from one state to
another. -/
inductive Fills (slots : List (Slot σ)) : List (String × Json) → σ → σ → Prop
  | nil (st : σ) : Fills slots [] st st
  | cons {key : String} {j : Json} {s : Slot σ} {fields : List (String × Json)} {st mid st' : σ}
      (named : slots.find? (fun s => s.answers key) = some s) (fresh : s.present st = false)
      (read : ∀ origin, s.read ⟨origin, none⟩ (.ofJson j) st = .ok mid)
      (rest : Fills slots fields mid st') : Fills slots ((key, j) :: fields) st st'

theorem Fills.append {slots : List (Slot σ)} {fields more : List (String × Json)} {st mid st' : σ}
    (h : Fills slots fields st mid) (h' : Fills slots more mid st') :
    Fills slots (fields ++ more) st st' := by
  induction h with
  | nil => exact h'
  | cons named fresh read _ ih => exact .cons named fresh read (ih h')

theorem Reads.slot {label : String} {present : σ → Bool} {d : Decoder α} {set : α → σ → σ}
    {j : Json} {a : α} {st : σ} (h : Reads d j a) (origin : Origin) :
    (Slot.of label present d set).read ⟨origin, none⟩ (.ofJson j) st = .ok (set a st) := by
  simp only [Slot.of, h origin]

theorem recordFields_of_fills {slots : List (Slot σ)} {fields : List (String × Json)} {st st' : σ}
    (h : Fills slots fields st st') (origin : Origin) :
    recordFields slots ⟨origin, none⟩ (Draft.ofFields fields) st = .ok st' := by
  induction h with
  | nil => rfl
  | cons named fresh read _ ih =>
    simp only [Draft.ofFields, recordFields, recordField, named, fresh, read origin, ih,
      Bool.false_eq_true, if_false]

theorem reads_record {type : String} {slots : List (Slot σ)} {fields : List (String × Json)}
    {empty st : σ} {build : σ → Option α} {a : α} (h : Fills slots fields empty st)
    (built : build st = some a) : Reads (record type slots empty build) (.obj fields) a :=
  fun origin => by
  simp only [record, Draft.ofJson, enter, Draft.deeper, recordFields_of_fills h origin, if_true,
    built]

end Decoder
end Json
end RenderFarm
