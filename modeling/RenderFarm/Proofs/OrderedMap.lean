import RenderFarm.OrderedMap

/-!
# RenderFarm.Proofs.OrderedMap

What the operations of an ordered map do to its entries.

* `mem_entries_iff`: an entry is what `find?` gives for its key.
* `entries_insert_new`, `entries_perm_erase`: a new key is an entry more, an erased key an entry
  less; sums and unions over the entries follow from these two.
* `find?_insert`, `find?_erase`, `find?_mapValues`, `find?_filter`: `find?` after each operation;
  `find?_of_erase`: what is found after an erasure was found before.
* `find?_foldl_insert`: what is found after many insertions was there before or came with one;
  `keys_foldl_insert`, `find?_foldl_insert_eq` say in which place, and with which.
-/

namespace RenderFarm
namespace OrderedMap

variable {κ α β : Type} [DecidableEq κ]

/-! ## On lists of entries -/

theorem lookup_mem {k : κ} {a : α} {es : List (κ × α)} (h : lookup k es = some a) :
    (k, a) ∈ es := by
  induction es with
  | nil => cases h
  | cons e es ih =>
    simp only [lookup] at h
    split at h
    · rename_i hk; cases h; subst hk; exact List.mem_cons_self
    · exact List.mem_cons_of_mem _ (ih h)

theorem lookup_eq_none {k : κ} {es : List (κ × α)} :
    lookup k es = none ↔ k ∉ es.map Prod.fst := by
  induction es with
  | nil => simp [lookup]
  | cons e es ih =>
    simp only [lookup]
    split
    · rename_i hk; simp [hk]
    · rename_i hk
      have hk' : ¬ k = e.1 := fun h => hk h.symm
      simp [ih, hk']

theorem lookup_put (k k' : κ) (a : α) (es : List (κ × α)) :
    lookup k' (put k a es) = if k = k' then some a else lookup k' es := by
  induction es with
  | nil => simp [put, lookup]
  | cons e es ih =>
    by_cases he : e.1 = k
    · simp only [put, he, if_true, lookup]
      split <;> rfl
    · simp only [put, he, if_false, lookup, ih]
      by_cases hk : e.1 = k'
      · have hne : ¬ k = k' := fun h => he (hk.trans h.symm)
        simp [hk, hne]
      · simp [hk]

theorem put_new {k : κ} {es : List (κ × α)} (a : α) (h : k ∉ es.map Prod.fst) :
    put k a es = es ++ [(k, a)] := by
  induction es with
  | nil => rfl
  | cons e es ih =>
    simp only [List.map_cons, List.mem_cons, not_or] at h
    have he : ¬ e.1 = k := fun hk => h.1 hk.symm
    simp [put, he, ih h.2]

theorem perm_drop {k : κ} {a : α} {es : List (κ × α)} (h : lookup k es = some a) :
    es.Perm ((k, a) :: drop k es) := by
  induction es with
  | nil => cases h
  | cons e es ih =>
    simp only [lookup] at h
    split at h
    · rename_i hk; cases h; subst hk; simp [drop]
    · rename_i hk
      simp only [drop, hk, if_false]
      exact ((ih h).cons e).trans (List.Perm.swap _ _ _)

theorem drop_absent {k : κ} {es : List (κ × α)} (h : lookup k es = none) : drop k es = es := by
  induction es with
  | nil => rfl
  | cons e es ih =>
    simp only [lookup] at h
    split at h
    · cases h
    · rename_i hk; simp [drop, hk, ih h]

/-- What comes again after its first place is left out. -/
theorem eraseDups_filter_cons {p : κ → Bool} {k : κ} {ks : List κ} (hk : p k = true) :
    ((k :: ks).filter p).eraseDups = k :: (ks.filter fun k' => p k' && k' ≠ k).eraseDups := by
  rw [List.filter_cons_of_pos hk, List.eraseDups_cons, List.filter_filter]
  refine congrArg (fun ks : List κ => k :: ks.eraseDups) (List.filter_congr fun k' _ => ?_)
  by_cases heq : k' = k
  · simp [heq]
  · simp [heq]

/-! ## Entries and keys -/

theorem mem_entries_iff {m : OrderedMap κ α} {k : κ} {a : α} :
    (k, a) ∈ m.entries ↔ m.find? k = some a := by
  refine ⟨fun h => ?_, lookup_mem⟩
  obtain ⟨es, hn⟩ := m
  simp only [find?] at h ⊢
  induction es with
  | nil => cases h
  | cons e es ih =>
    simp only [List.map_cons, List.nodup_cons] at hn
    rcases List.mem_cons.1 h with rfl | h
    · simp [lookup]
    · have he : ¬ e.1 = k := by
        rintro rfl
        exact hn.1 (List.mem_map.2 ⟨_, h, rfl⟩)
      simp only [lookup, he, if_false]
      exact ih hn.2 h

theorem find?_eq_none_iff {m : OrderedMap κ α} {k : κ} : m.find? k = none ↔ k ∉ m.keys :=
  lookup_eq_none

theorem mem_keys_iff {m : OrderedMap κ α} {k : κ} : k ∈ m.keys ↔ ∃ a, m.find? k = some a := by
  cases h : m.find? k with
  | none => simpa using find?_eq_none_iff.1 h
  | some a =>
    simp only [Option.some.injEq, exists_eq', iff_true]
    exact List.mem_map.2 ⟨_, mem_entries_iff.2 h, rfl⟩

theorem mem_values_iff {m : OrderedMap κ α} {a : α} : a ∈ m.values ↔ ∃ k, m.find? k = some a := by
  constructor
  · intro h
    obtain ⟨⟨k, _⟩, he, rfl⟩ := List.mem_map.1 h
    exact ⟨k, mem_entries_iff.1 he⟩
  · rintro ⟨k, h⟩
    exact List.mem_map.2 ⟨_, mem_entries_iff.2 h, rfl⟩

/-- What tells the entries apart has no repetition. -/
theorem nodup_map_values {γ : Type} {m : OrderedMap κ α} {g : α → γ}
    (h : ∀ k k' a a', m.find? k = some a → m.find? k' = some a' → g a = g a' → k = k') :
    (m.values.map g).Nodup := by
  have hkeys := List.pairwise_map.1 m.nodup
  rw [values, List.map_map]
  refine List.pairwise_map.2 (hkeys.imp_of_mem ?_)
  rintro ⟨k, a⟩ ⟨k', a'⟩ hmem hmem' hne heq
  exact hne (h k k' a a' (mem_entries_iff.1 hmem) (mem_entries_iff.1 hmem') heq)

/-- If the values tell their keys, the value of a key is the one that tells it. -/
theorem filter_values {key : α → κ} {m : OrderedMap κ α}
    (h : ∀ k a, m.find? k = some a → key a = k) (k : κ) :
    m.values.filter (fun a => key a = k) = (m.find? k).toList := by
  have hkey : ∀ e ∈ m.entries, key e.2 = e.1 := fun e he => h e.1 e.2 (mem_entries_iff.1 he)
  obtain ⟨es, hn⟩ := m
  simp only [values, find?] at hkey ⊢
  clear h
  induction es with
  | nil => rfl
  | cons e es ih =>
    simp only [List.map_cons, List.nodup_cons] at hn
    have hrest := ih hn.2 fun e' he' => hkey e' (List.mem_cons_of_mem _ he')
    have he := hkey e List.mem_cons_self
    by_cases hk : e.1 = k
    · subst hk
      rw [lookup_eq_none.2 hn.1] at hrest
      simp [lookup, he, hrest]
    · simp [lookup, he, hk, hrest]

omit [DecidableEq κ] in
theorem isEmpty_iff {m : OrderedMap κ α} : m.isEmpty = true ↔ m.entries = [] :=
  List.isEmpty_iff

/-! ## Operations -/

theorem find?_insert (m : OrderedMap κ α) (k k' : κ) (a : α) :
    (m.insert k a).find? k' = if k = k' then some a else m.find? k' :=
  lookup_put k k' a m.entries

theorem entries_insert_new {m : OrderedMap κ α} {k : κ} (a : α) (h : k ∉ m.keys) :
    (m.insert k a).entries = m.entries ++ [(k, a)] :=
  put_new a h

theorem keys_insert_of_mem {m : OrderedMap κ α} {k : κ} (a : α) (h : k ∈ m.keys) :
    (m.insert k a).keys = m.keys := by
  have hk : k ∈ m.entries.map Prod.fst := h
  simp only [keys, insert, map_fst_put, if_pos hk]

theorem entries_perm_erase {m : OrderedMap κ α} {k : κ} {a : α} (h : m.find? k = some a) :
    m.entries.Perm ((k, a) :: (m.erase k).entries) :=
  perm_drop h

theorem keys_insert_new {m : OrderedMap κ α} {k : κ} (a : α) (h : k ∉ m.keys) :
    (m.insert k a).keys = m.keys ++ [k] := by
  simp [keys, entries_insert_new a h]

theorem values_insert_new {m : OrderedMap κ α} {k : κ} (a : α) (h : k ∉ m.keys) :
    (m.insert k a).values = m.values ++ [a] := by
  simp [values, entries_insert_new a h]

theorem put_put (k : κ) (a b : α) (es : List (κ × α)) : put k b (put k a es) = put k b es := by
  induction es with
  | nil => simp [put]
  | cons e es ih =>
    by_cases he : e.1 = k
    · simp [put, he]
    · simp [put, he, ih]

theorem insert_insert (m : OrderedMap κ α) (k : κ) (a b : α) :
    (m.insert k a).insert k b = m.insert k b := by
  simp only [insert, put_put]

theorem keys_perm_erase {m : OrderedMap κ α} {k : κ} {a : α} (h : m.find? k = some a) :
    m.keys.Perm (k :: (m.erase k).keys) :=
  (entries_perm_erase h).map Prod.fst

theorem values_perm_erase {m : OrderedMap κ α} {k : κ} {a : α} (h : m.find? k = some a) :
    m.values.Perm (a :: (m.erase k).values) :=
  (entries_perm_erase h).map Prod.snd

theorem find?_erase (m : OrderedMap κ α) (k k' : κ) :
    (m.erase k).find? k' = if k = k' then none else m.find? k' := by
  cases h : m.find? k with
  | none =>
    have he : (m.erase k).entries = m.entries := drop_absent h
    simp only [find?, he]
    split
    · rename_i hk; subst hk; exact h
    · rfl
  | some a =>
    have hp := entries_perm_erase h
    have hn : k ∉ (m.erase k).keys := by
      have := (hp.map Prod.fst).nodup_iff.1 m.nodup
      exact (List.nodup_cons.1 this).1
    split
    · rename_i hk; subst hk; exact find?_eq_none_iff.2 hn
    · rename_i hk
      cases h' : m.find? k' with
      | none =>
        refine find?_eq_none_iff.2 fun hm => find?_eq_none_iff.1 h' ?_
        exact ((hp.map Prod.fst).mem_iff).2 (List.mem_cons_of_mem _ hm)
      | some b =>
        have hb := (hp.mem_iff).1 (mem_entries_iff.2 h')
        rcases List.mem_cons.1 hb with hb | hb
        · cases hb; exact absurd rfl hk
        · exact mem_entries_iff.1 hb

theorem find?_of_erase {m : OrderedMap κ α} {k k' : κ} {a : α}
    (h : (m.erase k).find? k' = some a) : m.find? k' = some a := by
  rw [find?_erase] at h
  split at h
  · cases h
  · exact h

theorem mem_keys_insert {m : OrderedMap κ α} {k k' : κ} {a : α} :
    k' ∈ (m.insert k a).keys ↔ k' = k ∨ k' ∈ m.keys := by
  simp only [mem_keys_iff, find?_insert]
  by_cases h : k = k'
  · simp [h]
  · simp [h, Ne.symm h]

theorem mem_keys_erase {m : OrderedMap κ α} {k k' : κ} :
    k' ∈ (m.erase k).keys ↔ k' ≠ k ∧ k' ∈ m.keys := by
  simp only [mem_keys_iff, find?_erase]
  by_cases h : k = k'
  · simp [h]
  · simp [h, Ne.symm h]

theorem contains_iff {m : OrderedMap κ α} {k : κ} : m.contains k = true ↔ k ∈ m.keys := by
  rw [contains, Option.isSome_iff_exists, mem_keys_iff]

omit [DecidableEq κ] in
@[simp] theorem keys_mapValues (f : κ → α → β) (m : OrderedMap κ α) :
    (m.mapValues f).keys = m.keys := by
  simp [keys, mapValues, Function.comp_def]

theorem find?_mapValues (f : κ → α → β) (m : OrderedMap κ α) (k : κ) :
    (m.mapValues f).find? k = (m.find? k).map (f k) := by
  obtain ⟨es, hn⟩ := m
  simp only [find?, mapValues]
  clear hn
  induction es with
  | nil => rfl
  | cons e es ih =>
    simp only [List.map_cons, lookup]
    split
    · rename_i hk
      simp [hk]
    · exact ih

theorem find?_filter (p : κ → α → Bool) (m : OrderedMap κ α) (k : κ) :
    (m.filter p).find? k = (m.find? k).filter (p k) := by
  cases h : m.find? k with
  | none =>
    refine find?_eq_none_iff.2 fun hm => find?_eq_none_iff.1 h ?_
    exact (List.filter_sublist.map _).subset hm
  | some a =>
    have ha := mem_entries_iff.2 h
    by_cases hp : p k a = true
    · simp only [Option.filter, hp, if_true]
      exact mem_entries_iff.1 (List.mem_filter.2 ⟨ha, hp⟩)
    · simp only [Option.filter, hp]
      refine find?_eq_none_iff.2 fun hm => ?_
      obtain ⟨⟨k', a'⟩, he, hk⟩ := List.mem_map.1 hm
      obtain ⟨he, hp'⟩ := List.mem_filter.1 he
      subst hk
      cases h.symm.trans (mem_entries_iff.1 he)
      exact hp hp'

theorem filter_congr {p q : κ → α → Bool} {m : OrderedMap κ α}
    (h : ∀ k a, m.find? k = some a → p k a = q k a) : m.filter p = m.filter q := by
  simp only [filter, OrderedMap.mk.injEq]
  exact List.filter_congr fun e he => h e.1 e.2 (mem_entries_iff.1 he)

theorem filter_eq_self {p : κ → α → Bool} {m : OrderedMap κ α}
    (h : ∀ k a, m.find? k = some a → p k a = true) : m.filter p = m := by
  obtain ⟨es, hn⟩ := m
  simp only [filter, OrderedMap.mk.injEq]
  exact List.filter_eq_self.2 fun e he => h e.1 e.2 (mem_entries_iff.1 he)

/-! ## Many entries at once -/

section Foldl

variable {γ : Type} {m : OrderedMap κ α} {key : γ → κ} {value : γ → α} {k : κ}

theorem find?_foldl_insert {gs : List γ} {a : α}
    (h : (gs.foldl (fun m g => m.insert (key g) (value g)) m).find? k = some a) :
    (∃ g ∈ gs, key g = k ∧ value g = a) ∨ m.find? k = some a := by
  induction gs generalizing m with
  | nil => exact .inr h
  | cons g gs ih =>
    rcases ih h with ⟨g', hg', hk⟩ | h
    · exact .inl ⟨g', List.mem_cons_of_mem _ hg', hk⟩
    · rw [find?_insert] at h
      split at h
      · rename_i hk
        cases h
        exact .inl ⟨g, List.mem_cons_self, hk, rfl⟩
      · exact .inr h

theorem mem_keys_foldl_insert {gs : List γ} :
    k ∈ (gs.foldl (fun m g => m.insert (key g) (value g)) m).keys ↔
      k ∈ gs.map key ∨ k ∈ m.keys := by
  induction gs generalizing m with
  | nil => simp
  | cons g gs ih =>
    simp only [List.foldl_cons, ih, mem_keys_insert, List.map_cons, List.mem_cons]
    rw [or_assoc, or_left_comm]

/-- The new keys stand behind the others, each where it came first. -/
theorem keys_foldl_insert {gs : List γ} :
    (gs.foldl (fun m g => m.insert (key g) (value g)) m).keys =
      m.keys ++ ((gs.map key).filter (· ∉ m.keys)).eraseDups := by
  induction gs generalizing m with
  | nil => simp
  | cons g gs ih =>
    rw [List.foldl_cons, ih, List.map_cons]
    by_cases hg : key g ∈ m.keys
    · rw [keys_insert_of_mem _ hg, List.filter_cons_of_neg (by simpa using hg)]
    · rw [keys_insert_new _ hg, eraseDups_filter_cons (by simpa using hg)]
      simp

/-- The last value of a key counts. -/
theorem find?_foldl_insert_eq {gs : List γ} :
    (gs.foldl (fun m g => m.insert (key g) (value g)) m).find? k =
      ((gs.filter fun g => key g = k).getLast?.map value).or (m.find? k) := by
  induction gs generalizing m with
  | nil => simp
  | cons g gs ih =>
    rw [List.foldl_cons, ih, find?_insert]
    by_cases hg : key g = k
    · rw [if_pos hg, List.filter_cons_of_pos (by simpa using hg), List.getLast?_cons]
      cases (gs.filter fun g => key g = k).getLast? <;> rfl
    · rw [if_neg hg, List.filter_cons_of_neg (by simpa using hg)]

theorem entries_foldl_insert {gs : List γ} (hn : (gs.map key).Nodup)
    (hnew : ∀ g ∈ gs, key g ∉ m.keys) :
    (gs.foldl (fun m g => m.insert (key g) (value g)) m).entries =
      m.entries ++ gs.map fun g => (key g, value g) := by
  induction gs generalizing m with
  | nil => simp
  | cons g gs ih =>
    rw [List.map_cons, List.nodup_cons] at hn
    have hg := hnew g List.mem_cons_self
    have hrest : ∀ g' ∈ gs, key g' ∉ (m.insert (key g) (value g)).keys := by
      intro g' hg' hmem
      rcases mem_keys_insert.1 hmem with heq | hmem
      · exact hn.1 (heq ▸ List.mem_map_of_mem hg')
      · exact hnew g' (List.mem_cons_of_mem _ hg') hmem
    rw [List.foldl_cons, ih hn.2 hrest, entries_insert_new _ hg]
    simp

end Foldl

end OrderedMap
end RenderFarm
