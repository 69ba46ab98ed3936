import RenderFarm.Json.Decode
import RenderFarm.Proofs.Json.Values

/-!
# RenderFarm.Proofs.Json.Acceptance

Which values the decoders accept, and what they make of them. The keys of an object are ascending,
so a record can ask it for one key after the other.

* `string_eq_ok`, `natural_eq_ok`, `option_eq_ok`, `list_eq_ok`, `variant_eq_ok`: the parts of a
  message.
* `recordFields_eq_takeFields`: an object is read key by key, and the other keys are passed over.
* `Taken d p j? o`: what a decoder makes of a value that may be absent. `Optionally R j? o`: the
  same of a value that may be null too.
* `takeFields_cons_eq_ok`, `takeFields_cons_filled`, `record_eq_ok`: one key of a record, and the
  whole.
-/

namespace RenderFarm

/-! ## Fields -/

namespace Fields

variable {α : Type} {fs : List (String × α)} {f : String × α} {k : String} {a : α}

theorem find?_cons_self (k : String) (a : α) (fs : List (String × α)) :
    find? k ((k, a) :: fs) = some a := by
  simp [find?]

theorem find?_cons_ne (h : f.1 ≠ k) : find? k (f :: fs) = find? k fs := by
  simp [find?, h]

theorem find?_eq_none : find? k fs = none ↔ ∀ f ∈ fs, f.1 ≠ k := by
  induction fs with
  | nil => simp [find?]
  | cons f fs ih => by_cases h : f.1 = k <;> simp [find?, h, ih]

theorem mem_of_find? (h : find? k fs = some a) : (k, a) ∈ fs := by
  induction fs with
  | nil => cases h
  | cons f fs ih =>
    by_cases hf : f.1 = k
    · rw [find?, if_pos hf, Option.some.injEq] at h
      rw [← hf, ← h]
      exact List.mem_cons_self
    · rw [find?_cons_ne hf] at h
      exact List.mem_cons_of_mem _ (ih h)

theorem ne_of_lt {k k' : String} (h : k < k') : k ≠ k' := fun e => String.lt_irrefl k' (e ▸ h)

/-- The keys up to the first are not among the others. -/
theorem find?_tail (h : Ascending (f :: fs)) (hk : k < f.1 ∨ k = f.1) : find? k fs = none := by
  refine find?_eq_none.2 fun g hg => ?_
  have hfg : f.1 < g.1 := List.rel_of_pairwise_cons h hg
  rcases hk with hk | rfl
  · exact (ne_of_lt (String.lt_trans hk hfg)).symm
  · exact (ne_of_lt hfg).symm

end Fields

namespace Json

/-! ## Drafts of values -/

namespace Draft

mutual

theorem wellFormed_ofJson : ∀ j : Json, (ofJson j).wellFormed = true
  | .null | .bool _ | .int _ | .float _ | .str _ => rfl
  | .arr items => by simp only [ofJson, wellFormed, itemsWellFormed_ofItems items, Bool.and_self]
  | .obj fields => by
    simp only [ofJson, wellFormed, fieldsWellFormed_ofFields fields, Bool.and_self]

theorem itemsWellFormed_ofItems : ∀ js : List Json, itemsWellFormed (ofItems js) = true
  | [] => rfl
  | j :: js => by
    simp only [ofItems, itemsWellFormed, wellFormed_ofJson j, itemsWellFormed_ofItems js,
      Bool.and_self]

theorem fieldsWellFormed_ofFields : ∀ fs : List (String × Json),
    fieldsWellFormed (ofFields fs) = true
  | [] => rfl
  | (_, j) :: fs => by
    simp only [ofFields, fieldsWellFormed, wellFormed_ofJson j, fieldsWellFormed_ofFields fs,
      Bool.and_self]

end

end Draft

namespace Decoder

variable {α β σ ε : Type} {slots : List (Slot σ)} {p : Place} {st st' : σ}

theorem bind_eq_ok {x : Except ε α} {f : α → Except ε β} {b : β} :
    x >>= f = .ok b ↔ ∃ a, x = .ok a ∧ f a = .ok b := by
  cases x with
  | error e =>
    refine ⟨fun h => ?_, ?_⟩
    · cases h
    · rintro ⟨a, h, -⟩
      cases h
  | ok a =>
    refine ⟨fun h => ⟨a, rfl, h⟩, ?_⟩
    rintro ⟨b, h, h'⟩
    cases h
    exact h'

theorem map_eq_ok {d : Decoder α} {f : α → β} {j : Draft} {b : β} :
    d.map f p j = .ok b ↔ ∃ a, d p j = .ok a ∧ f a = b := by
  unfold Decoder.map
  cases d p j <;> simp

/-! ## Scalars -/

variable {j : Json}

theorem string_eq_ok {s : String} : string p (.ofJson j) = .ok s ↔ j = .str s := by
  cases j <;> simp [string, Draft.ofJson]

/-- A string that is put into a type of its own. -/
theorem wrapped_eq_ok {mk : String → α} {text : α → String} (hmk : ∀ a, mk (text a) = a)
    (htext : ∀ s, text (mk s) = s) {a : α} :
    string.map mk p (.ofJson j) = .ok a ↔ j = .str (text a) := by
  rw [map_eq_ok]
  constructor
  · rintro ⟨s, read, rfl⟩
    rw [htext]
    exact string_eq_ok.1 read
  · intro h
    exact ⟨text a, string_eq_ok.2 h, hmk a⟩

theorem natural_eq_ok {limit n : Nat} {type : String} :
    natural limit type p (.ofJson j) = .ok n ↔ j = .int n ∧ n < limit := by
  cases j with
  | int m =>
    simp only [natural, Draft.ofJson, Json.int.injEq]
    split
    case isTrue h =>
      simp only [Except.ok.injEq]
      omega
    case isFalse h =>
      simp only [misfit, reduceCtorEq, false_iff]
      omega
  | _ => simp [natural, Draft.ofJson]

theorem unit_eq_ok {u : Unit} : unit p (.ofJson j) = .ok u ↔ j = .null := by
  cases j <;> simp [unit, Draft.ofJson]

theorem option_eq_ok {d : Decoder α} {o : Option α} :
    option d p (.ofJson j) = .ok o ↔
      (j = .null ∧ o = none) ∨ (j ≠ .null ∧ ∃ a, d p (.ofJson j) = .ok a ∧ some a = o) := by
  cases j with
  | null => simp [option, Draft.ofJson, eq_comm]
  | _ =>
    simp only [reduceCtorEq, false_and, false_or, ne_eq, not_false_eq_true, true_and]
    exact map_eq_ok

/-! ## Arrays -/

theorem items_eq_ok {d : Decoder α} {f : α → Json} (hd : ∀ j a, d p (.ofJson j) = .ok a ↔ j = f a)
    {js : List Json} {as : List α} :
    items d p (Draft.ofItems js) = .ok as ↔ js = as.map f := by
  induction js generalizing as with
  | nil => cases as <;> simp [items, Draft.ofItems]
  | cons j js ih =>
    simp only [Draft.ofItems, items]
    cases hj : d p (.ofJson j) with
    | error e =>
      simp only [reduceCtorEq, false_iff]
      rintro h
      cases as with
      | nil => cases h
      | cons a as =>
        cases hj.symm.trans ((hd j a).2 (List.cons.inj h).1)
    | ok a =>
      cases hjs : items d p (Draft.ofItems js) with
      | error e =>
        simp only [reduceCtorEq, false_iff]
        intro h
        cases as with
        | nil => cases h
        | cons a' as => cases hjs.symm.trans (ih.2 (List.cons.inj h).2)
      | ok as' =>
        simp only [Except.ok.injEq]
        constructor
        · rintro rfl
          rw [List.map_cons, (hd j a).1 hj, ih.1 hjs]
        · intro h
          cases as with
          | nil => cases h
          | cons a' as =>
            obtain ⟨hj', hjs'⟩ := List.cons.inj h
            rw [Except.ok.inj (hj.symm.trans ((hd j a').2 hj')),
              Except.ok.inj (hjs.symm.trans (ih.2 hjs'))]

theorem list_eq_ok {d : Decoder α} {f : α → Json} {origin : Origin}
    (hd : ∀ j a, d ⟨origin, none⟩ (.ofJson j) = .ok a ↔ j = f a) {as : List α} :
    list d ⟨origin, none⟩ (.ofJson j) = .ok as ↔ j = .arr (as.map f) := by
  cases j with
  | arr js =>
    simp only [list, Draft.ofJson, enter, Draft.deeper, Json.arr.injEq, ← items_eq_ok hd]
    cases items d ⟨origin, none⟩ (Draft.ofItems js) <;> simp
  | _ => simp [list, Draft.ofJson]

/-! ## Variants -/

theorem variantNamed_eq_ok {variants : List (String × α)} {name : String} {a : α} :
    variantNamed variants name = .ok a ↔ variants.find? (fun v => v.1 == name) = some (name, a) := by
  unfold variantNamed
  cases hv : variants.find? (fun v => v.1 == name) with
  | none => simp [misfit]
  | some v =>
    obtain ⟨name', b⟩ := v
    have hname : name' = name := by simpa using List.find?_some hv
    simp [hname]

/-- A variant is given by its name, or by an object with the name as its only key. -/
theorem variant_eq_ok {variants : List (String × α)} {a : α} :
    variant variants ⟨.value, none⟩ (.ofJson j) = .ok a ↔
      ∃ name, variants.find? (fun v => v.1 == name) = some (name, a) ∧
        (j = .str name ∨ j = .obj [(name, .null)]) := by
  simp only [← variantNamed_eq_ok]
  cases j with
  | str s => simp [variant, Draft.ofJson]
  | obj fields =>
    match fields with
    | [] => simp [variant, Draft.ofJson, Draft.ofFields, misfit]
    | [(name, content)] =>
      simp only [variant, Draft.ofJson, Draft.ofFields]
      cases hv : variantNamed variants name with
      | error e =>
        simp only [reduceCtorEq, false_iff]
        rintro ⟨name', h, h' | h'⟩
        · cases h'
        · cases h'
          cases hv.symm.trans h
      | ok v =>
        cases hu : unit ⟨.value, none⟩ (Draft.ofJson content) with
        | error e =>
          simp only [reduceCtorEq, false_iff]
          rintro ⟨name', h, h' | h'⟩
          · cases h'
          · cases h'
            cases hu
        | ok u =>
          obtain rfl := unit_eq_ok.1 hu
          simp only [Except.ok.injEq]
          refine ⟨fun h => ⟨name, h ▸ hv, .inr rfl⟩, ?_⟩
          rintro ⟨name', h, h' | h'⟩
          · cases h'
          · cases h'
            exact Except.ok.inj (hv.symm.trans h)
    | _ :: _ :: _ => simp [variant, Draft.ofJson, Draft.ofFields, misfit]
  | _ => simp [variant, Draft.ofJson]

/-! ## Objects key by key -/

/-- What a record makes of the value of a key that may be absent. -/
def takeField (slots : List (Slot σ)) (p : Place) (key : String) (j? : Option Json) (st : σ) :
    Except Fault σ :=
  match j? with
  | none => .ok st
  | some j => recordField slots p key (.ofJson j) st

theorem recordField_unknown {key : String} (h : slots.find? (fun s => s.answers key) = none)
    (j : Json) : recordField slots p key (.ofJson j) st = .ok st := by
  simp only [recordField, h, ignore, Draft.wellFormed_ofJson, if_true]

theorem recordFields_cons (key : String) (j : Json) (fs : List (String × Json)) :
    recordFields slots p (Draft.ofFields ((key, j) :: fs)) st =
      recordField slots p key (.ofJson j) st >>= recordFields slots p (Draft.ofFields fs) := by
  simp only [Draft.ofFields, recordFields]
  cases recordField slots p key (.ofJson j) st <;> rfl

/-- Asks for the keys one after the other. -/
def takeFields (slots : List (Slot σ)) (p : Place) (fields : List (String × Json)) :
    List String → σ → Except Fault σ
  | [], st => .ok st
  | k :: ks, st => takeField slots p k (Fields.find? k fields) st >>= takeFields slots p fields ks

variable {fields fields' : List (String × Json)} {keys : List String}

/-- Keys that are not there change nothing. -/
theorem takeFields_absent {before : List String}
    (h : ∀ k ∈ before, Fields.find? k fields = none) (keys : List String) (st : σ) :
    takeFields slots p fields (before ++ keys) st = takeFields slots p fields keys st := by
  induction before with
  | nil => rfl
  | cons k before ih =>
    rw [List.cons_append, takeFields, h k List.mem_cons_self]
    exact ih fun k' hk' => h k' (List.mem_cons_of_mem _ hk')

theorem takeFields_congr (h : ∀ k ∈ keys, Fields.find? k fields = Fields.find? k fields')
    (st : σ) : takeFields slots p fields keys st = takeFields slots p fields' keys st := by
  induction keys generalizing st with
  | nil => rfl
  | cons k keys ih =>
    rw [takeFields, takeFields, h k List.mem_cons_self]
    exact bind_congr fun st => ih (fun k' hk' => h k' (List.mem_cons_of_mem _ hk')) st

/-- An object with ascending keys is read key by key, in the order of the keys that the record
knows. By induction on the fields: either the record does not know the first key, or all known keys
before it are absent. -/
theorem recordFields_eq_takeFields (sorted : keys.Pairwise (· < ·))
    (known : ∀ k s, slots.find? (fun s => s.answers k) = some s → k ∈ keys)
    (h : Fields.Ascending fields) (st : σ) :
    recordFields slots p (Draft.ofFields fields) st = takeFields slots p fields keys st := by
  induction fields generalizing st with
  | nil =>
    have absent : ∀ k ∈ keys, Fields.find? k ([] : List (String × Json)) = none := fun _ _ => rfl
    have nothing : takeFields slots p [] (keys ++ []) st = .ok st := takeFields_absent absent [] st
    exact (List.append_nil keys ▸ nothing).symm
  | cons f fs ih =>
    obtain ⟨key, j⟩ := f
    have hfs : Fields.Ascending fs := (List.pairwise_cons.1 h).2
    rw [recordFields_cons]
    by_cases hkey : key ∈ keys
    · obtain ⟨before, after, rfl⟩ := List.append_of_mem hkey
      obtain ⟨-, hafter, hbefore⟩ := List.pairwise_append.1 sorted
      have hlt : ∀ k ∈ before, k < key := fun k hk => hbefore k hk key List.mem_cons_self
      have skipped : ∀ k ∈ before, Fields.find? k fs = none := fun k hk =>
        Fields.find?_tail h (.inl (hlt k hk))
      have absent : ∀ k ∈ before, Fields.find? k ((key, j) :: fs) = none := fun k hk =>
        (Fields.find?_cons_ne (Fields.ne_of_lt (hlt k hk)).symm).trans (skipped k hk)
      have rest : ∀ k ∈ after, Fields.find? k fs = Fields.find? k ((key, j) :: fs) := fun k hk =>
        (Fields.find?_cons_ne (Fields.ne_of_lt ((List.pairwise_cons.1 hafter).1 k hk))).symm
      rw [takeFields_absent absent, takeFields, Fields.find?_cons_self]
      refine congrArg (recordField slots p key (.ofJson j) st >>= ·) (funext fun st => ?_)
      rw [ih hfs st, takeFields_absent skipped, takeFields, Fields.find?_tail h (.inr rfl)]
      exact takeFields_congr rest st
    · have unknown : slots.find? (fun s => s.answers key) = none :=
        Option.eq_none_iff_forall_ne_some.2 fun s hs => hkey (known key s hs)
      have rest : ∀ k ∈ keys, Fields.find? k fs = Fields.find? k ((key, j) :: fs) := fun k hk =>
        (Fields.find?_cons_ne fun e : key = k => hkey (e ▸ hk)).symm
      rw [recordField_unknown unknown]
      exact (ih hfs st).trans (takeFields_congr rest st)

/-! ## One key -/

/-- What a decoder makes of a value that may be absent. -/
inductive Taken (d : Decoder α) (p : Place) : Option Json → Option α → Prop
  | absent : Taken d p none none
  | present {j : Json} {a : α} (read : d p (.ofJson j) = .ok a) : Taken d p (some j) (some a)

/-- A key of a slot that is still empty; `fill` gives the accumulator with the slot filled. -/
theorem takeField_eq_ok {key : String} {s : Slot σ} {d : Decoder α} {set : α → σ → σ}
    (named : slots.find? (fun s => s.answers key) = some s) (fresh : s.present st = false)
    (reads : s.read = (Slot.of s.label s.present d set).read) (fill : Option α → σ)
    (empty : fill none = st) (full : ∀ a, fill (some a) = set a st) {j? : Option Json} :
    takeField slots p key j? st = .ok st' ↔ ∃ o, Taken d p j? o ∧ fill o = st' := by
  cases j? with
  | none =>
    simp only [takeField, Except.ok.injEq]
    refine ⟨fun h => ⟨none, .absent, empty.trans h⟩, ?_⟩
    rintro ⟨o, taken, h⟩
    cases taken with
    | absent => exact empty.symm.trans h
  | some j =>
    simp only [takeField, recordField, named, fresh, Bool.false_eq_true, if_false, reads, Slot.of]
    cases hd : d p (.ofJson j) with
    | error e =>
      simp only [reduceCtorEq, false_iff]
      rintro ⟨o, taken, -⟩
      cases taken with
      | present read => cases hd.symm.trans read
    | ok a =>
      simp only [Except.ok.injEq]
      refine ⟨fun h => ⟨some a, .present hd, (full a).trans h⟩, ?_⟩
      rintro ⟨o, taken, h⟩
      cases taken with
      | present read =>
        cases hd.symm.trans read
        exact (full a).symm.trans h

/-- A key of a slot that is filled must not be there. -/
theorem takeField_filled {key : String} {s : Slot σ}
    (named : slots.find? (fun s => s.answers key) = some s) (filled : s.present st = true)
    {j? : Option Json} : takeField slots p key j? st = .ok st' ↔ j? = none ∧ st' = st := by
  cases j? with
  | none => simp [takeField, eq_comm]
  | some j => simp [takeField, recordField, named, filled, misfit]

/-- The first of the keys, where its slot is still empty. -/
theorem takeFields_cons_eq_ok {key : String} {s : Slot σ} {d : Decoder α} {set : α → σ → σ}
    (named : slots.find? (fun s => s.answers key) = some s) (fresh : s.present st = false)
    (reads : s.read = (Slot.of s.label s.present d set).read) (fill : Option α → σ)
    (empty : fill none = st) (full : ∀ a, fill (some a) = set a st) :
    takeFields slots p fields (key :: keys) st = .ok st' ↔
      ∃ o, Taken d p (Fields.find? key fields) o ∧
        takeFields slots p fields keys (fill o) = .ok st' := by
  rw [takeFields, bind_eq_ok]
  constructor
  · rintro ⟨mid, first, rest⟩
    obtain ⟨o, taken, rfl⟩ := (takeField_eq_ok named fresh reads fill empty full).1 first
    exact ⟨o, taken, rest⟩
  · rintro ⟨o, taken, rest⟩
    exact ⟨fill o, (takeField_eq_ok named fresh reads fill empty full).2 ⟨o, taken, rfl⟩, rest⟩

/-- The first of the keys, where its slot is filled. -/
theorem takeFields_cons_filled {key : String} {s : Slot σ}
    (named : slots.find? (fun s => s.answers key) = some s) (filled : s.present st = true) :
    takeFields slots p fields (key :: keys) st = .ok st' ↔
      Fields.find? key fields = none ∧ takeFields slots p fields keys st = .ok st' := by
  simp only [takeFields, bind_eq_ok, takeField_filled named filled, and_assoc, exists_and_left,
    exists_eq_left]

/-! ## Values that may be absent -/

theorem taken_some {d : Decoder α} {R : α → Json → Prop} {j? : Option Json}
    (hd : ∀ j, j? = some j → ∀ a, d p (.ofJson j) = .ok a ↔ R a j) {a : α} :
    Taken d p j? (some a) ↔ ∃ j, j? = some j ∧ R a j := by
  constructor
  · rintro ⟨⟩
    case present j read => exact ⟨j, rfl, (hd j rfl a).1 read⟩
  · rintro ⟨j, rfl, h⟩
    exact .present ((hd j rfl a).2 h)

theorem taken_none {d : Decoder α} {j? : Option Json} : Taken d p j? none ↔ j? = none := by
  constructor
  · rintro ⟨⟩
    rfl
  · rintro rfl
    exact .absent

/-- A value that may be absent or null, and else stands for a value as `R` says. -/
inductive Optionally (R : α → Json → Prop) : Option Json → Option α → Prop
  | absent : Optionally R none none
  | null : Optionally R (some .null) none
  | given {j : Json} {a : α} (stands : R a j) : Optionally R (some j) (some a)

/-- An absent value and null are the same to a record. -/
theorem taken_option {d : Decoder α} {R : α → Json → Prop}
    (hd : ∀ j a, d p (.ofJson j) = .ok a ↔ R a j) (hnull : ∀ a, ¬ R a .null) {j? : Option Json}
    {o : Option α} :
    (∃ o', Taken (option d) p j? o' ∧ o'.getD none = o) ↔ Optionally R j? o := by
  constructor
  · rintro ⟨o', taken, rfl⟩
    cases taken with
    | absent => exact .absent
    | present read =>
      rcases option_eq_ok.1 read with ⟨rfl, rfl⟩ | ⟨-, a, value, rfl⟩
      · exact .null
      · exact .given ((hd _ a).1 value)
  · intro h
    cases h with
    | absent => exact ⟨none, .absent, rfl⟩
    | null => exact ⟨some none, .present (option_eq_ok.2 (.inl ⟨rfl, rfl⟩)), rfl⟩
    | @given j a stands =>
      have hj : j ≠ .null := fun e => hnull a (e ▸ stands)
      exact ⟨some (some a),
        .present (option_eq_ok.2 (.inr ⟨hj, a, (hd j a).2 stands, rfl⟩)), rfl⟩

/-! ## Whole records -/

theorem record_eq_ok {type : String} {empty : σ} {build : σ → Option α} {origin : Origin} {a : α} :
    record type slots empty build ⟨origin, none⟩ (.ofJson (.obj fields)) = .ok a ↔
      ∃ st, recordFields slots ⟨origin, none⟩ (Draft.ofFields fields) empty = .ok st ∧
        build st = some a := by
  simp only [record, Draft.ofJson, enter, Draft.deeper, if_true]
  cases recordFields slots ⟨origin, none⟩ (Draft.ofFields fields) empty with
  | error e => simp
  | ok st =>
    cases hb : build st with
    | some b => simp [hb]
    | none =>
      simp only [Except.ok.injEq, exists_eq_left', hb, reduceCtorEq, iff_false]
      split <;> simp [misfit]

end Decoder
end Json
end RenderFarm
