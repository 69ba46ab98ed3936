import RenderFarm.Json.Draft

/-!
# RenderFarm.Proofs.Json.Values

The fields of an object are in ascending order of their keys, in a value and in all values inside
it. These are the values that a draft can stand for.

* `Fields.ofList_eq`: fields in ascending order are kept as they are.
* `toJson?_ofJson`: a value in order, written down, is read as itself.
* `toJson?_inOrder`: whatever is read is in order.
-/

namespace RenderFarm

/-! ## Fields -/

namespace Fields

variable {α : Type}

/-- The keys are ascending, so none of them is there twice. -/
def Ascending (fs : List (String × α)) : Prop := fs.Pairwise fun f g => f.1 < g.1

/-- A key above all others goes to the end. -/
theorem set_above {k : String} {a : α} {fs : List (String × α)} (h : ∀ f ∈ fs, f.1 < k) :
    set k a fs = fs ++ [(k, a)] := by
  induction fs with
  | nil => rfl
  | cons f fs ih =>
    have hf : f.1 < k := h f List.mem_cons_self
    have hne : k ≠ f.1 := fun e => String.lt_irrefl k (e ▸ hf)
    have hnl : ¬ k < f.1 := fun e => String.lt_irrefl k (String.lt_trans e hf)
    simp only [set, hne, hnl, if_false, List.cons_append]
    rw [ih fun g hg => h g (List.mem_cons_of_mem _ hg)]

theorem foldl_set {fs acc : List (String × α)} (h : Ascending (acc ++ fs)) :
    fs.foldl (fun acc f => set f.1 f.2 acc) acc = acc ++ fs := by
  induction fs generalizing acc with
  | nil => simp
  | cons f fs ih =>
    have hf : ∀ g ∈ acc, g.1 < f.1 := fun g hg =>
      (List.pairwise_append.1 h).2.2 g hg f List.mem_cons_self
    rw [List.foldl_cons, set_above hf, ih (by simpa using h)]
    simp

theorem ofList_eq {fs : List (String × α)} (h : Ascending fs) : ofList fs = fs :=
  foldl_set (show Ascending ([] ++ fs) from h)

theorem mem_set {k : String} {a : α} {fs : List (String × α)} {f : String × α}
    (h : f ∈ set k a fs) : f = (k, a) ∨ f ∈ fs := by
  induction fs with
  | nil => exact .inl (by simpa [set] using h)
  | cons g fs ih =>
    simp only [set] at h
    split at h
    · exact (List.mem_cons.1 h).imp_right (List.mem_cons_of_mem _)
    · split at h
      · exact List.mem_cons.1 h
      · rcases List.mem_cons.1 h with rfl | h
        · exact .inr List.mem_cons_self
        · exact (ih h).imp_right (List.mem_cons_of_mem _)

theorem ascending_set {fs : List (String × α)} (h : Ascending fs) (k : String) (a : α) :
    Ascending (set k a fs) := by
  induction fs with
  | nil => exact List.pairwise_singleton _ _
  | cons g fs ih =>
    obtain ⟨hg, hfs⟩ := List.pairwise_cons.1 h
    simp only [set]
    split
    case isTrue e => exact List.pairwise_cons.2 ⟨fun f hf => e ▸ hg f hf, hfs⟩
    case isFalse e =>
      split
      case isTrue hk =>
        refine List.pairwise_cons.2 ⟨fun f hf => ?_, h⟩
        rcases List.mem_cons.1 hf with rfl | hf
        · exact hk
        · exact String.lt_trans hk (hg f hf)
      case isFalse hk =>
        have hgk : g.1 < k := Decidable.byContradiction fun hgk =>
          e (String.le_antisymm (String.not_lt.1 hgk) (String.not_lt.1 hk))
        refine List.pairwise_cons.2 ⟨fun f hf => ?_, ih hfs⟩
        rcases mem_set hf with rfl | hf
        · exact hgk
        · exact hg f hf

theorem ascending_ofList (fs : List (String × α)) : Ascending (ofList fs) :=
  List.foldlRecOn fs _ List.Pairwise.nil fun _ h f _ => ascending_set h f.1 f.2

theorem mem_ofList {fs : List (String × α)} {f : String × α} (h : f ∈ ofList fs) : f ∈ fs := by
  have key : ∀ (l acc : List (String × α)),
      f ∈ l.foldl (fun acc f => set f.1 f.2 acc) acc → f ∈ acc ∨ f ∈ l := by
    intro l
    induction l with
    | nil => exact fun _ h => .inl h
    | cons g l ih =>
      intro acc h
      rcases ih _ h with h | h
      · rcases mem_set h with rfl | h
        · exact .inr List.mem_cons_self
        · exact .inl h
      · exact .inr (List.mem_cons_of_mem _ h)
  exact (key fs [] h).resolve_left List.not_mem_nil

end Fields

namespace Json

/-! ## Values in order -/

mutual

/-- In each object the keys are ascending. -/
def InOrder : Json → Prop
  | .arr items => ItemsInOrder items
  | .obj fields => Fields.Ascending fields ∧ FieldsInOrder fields
  | _ => True

def ItemsInOrder : List Json → Prop
  | [] => True
  | j :: js => InOrder j ∧ ItemsInOrder js

def FieldsInOrder : List (String × Json) → Prop
  | [] => True
  | (_, j) :: fs => InOrder j ∧ FieldsInOrder fs

end

theorem fieldsInOrder_iff {fs : List (String × Json)} :
    FieldsInOrder fs ↔ ∀ f ∈ fs, InOrder f.2 := by
  induction fs with
  | nil => simp [FieldsInOrder]
  | cons f fs ih => simp [FieldsInOrder, ih]

theorem inOrder_ofFields {fs : List (String × Json)} (h : FieldsInOrder fs) :
    (ofFields fs).InOrder :=
  ⟨Fields.ascending_ofList fs,
    fieldsInOrder_iff.2 fun f hf => fieldsInOrder_iff.1 h f (Fields.mem_ofList hf)⟩

namespace Draft

mutual

/-- A value in order is what its draft stands for. -/
theorem toJson?_ofJson : ∀ {j : Json}, j.InOrder → (ofJson j).toJson? none = some j
  | .null, _ | .bool _, _ | .int _, _ | .float _, _ | .str _, _ => rfl
  | .arr items, h => by
    have items : itemsToJson? none (ofItems items) = some items := itemsToJson?_ofItems h
    simp only [ofJson, toJson?, deeper, if_true, items, Option.map_some]
  | .obj fields, h => by
    simp only [ofJson, toJson?, deeper, if_true, fieldsToJson?_ofFields h.2, Option.map_some,
      Json.ofFields, Fields.ofList_eq h.1]

theorem itemsToJson?_ofItems : ∀ {js : List Json}, ItemsInOrder js →
    itemsToJson? none (ofItems js) = some js
  | [], _ => rfl
  | _ :: _, h => by
    simp only [ofItems, itemsToJson?, toJson?_ofJson h.1, itemsToJson?_ofItems h.2]

theorem fieldsToJson?_ofFields : ∀ {fs : List (String × Json)}, FieldsInOrder fs →
    fieldsToJson? none (ofFields fs) = some fs
  | [], _ => rfl
  | (_, _) :: _, h => by
    simp only [ofFields, fieldsToJson?, toJson?_ofJson h.1, fieldsToJson?_ofFields h.2]

end

mutual

theorem toJson?_inOrder : ∀ {d : Draft} {depth : Option Nat} {j : Json},
    d.toJson? depth = some j → j.InOrder
  | .null, _, _, h | .bool _, _, _, h | .int _, _, _, h | .float _, _, _, h | .str _, _, _, h => by
    simp only [toJson?, Option.some.injEq] at h
    subst h
    trivial
  | .valueless, _, _, h | .broken, _, _, h => by simp [toJson?] at h
  | .arr items whole, depth, j, h => by
    simp only [toJson?] at h
    split at h
    · cases h
    · split at h
      · obtain ⟨js, hjs, rfl⟩ := Option.map_eq_some_iff.1 h
        exact itemsToJson?_inOrder hjs
      · cases h
  | .obj fields whole, depth, j, h => by
    simp only [toJson?] at h
    split at h
    · cases h
    · split at h
      · obtain ⟨fs, hfs, rfl⟩ := Option.map_eq_some_iff.1 h
        exact inOrder_ofFields (fieldsToJson?_inOrder hfs)
      · cases h

theorem itemsToJson?_inOrder : ∀ {ds : List Draft} {depth : Option Nat} {js : List Json},
    itemsToJson? depth ds = some js → ItemsInOrder js
  | [], _, _, h => by
    simp only [itemsToJson?, Option.some.injEq] at h
    subst h
    trivial
  | d :: ds, _, _, h => by
    simp only [itemsToJson?] at h
    split at h
    case h_1 hj hjs =>
      cases h
      exact ⟨toJson?_inOrder hj, itemsToJson?_inOrder hjs⟩
    case h_2 => cases h

theorem fieldsToJson?_inOrder : ∀ {ds : List (Option String × Draft)} {depth : Option Nat}
    {fs : List (String × Json)}, fieldsToJson? depth ds = some fs → FieldsInOrder fs
  | [], _, _, h => by
    simp only [fieldsToJson?, Option.some.injEq] at h
    subst h
    trivial
  | (k, d) :: ds, _, _, h => by
    simp only [fieldsToJson?] at h
    split at h
    case h_1 hj hfs =>
      cases h
      exact ⟨toJson?_inOrder hj, fieldsToJson?_inOrder hfs⟩
    case h_2 => cases h

end

/-- The values that are read as themselves are the values in order. -/
theorem toJson?_ofJson_iff {j : Json} : (ofJson j).toJson? none = some j ↔ j.InOrder :=
  ⟨toJson?_inOrder, toJson?_ofJson⟩

end Draft
end Json
end RenderFarm
