import RenderFarm.Name

/-!
# RenderFarm.Proofs.Name

Names that end in a number can be read back: the number is what follows the last sign that is no
digit.

* `ofExecution_inj`: the name of a task tells its execution and its number.
* `EndsIn.number_eq`: two names from a `NameSource` are the same only if their numbers are.
-/

namespace RenderFarm

theorem toDigits_inj {m n : Nat} (h : Nat.toDigits 10 m = Nat.toDigits 10 n) : m = n := by
  have := congrArg (Nat.ofDigitChars 10 · 0) h
  simpa only [Nat.ofDigitChars_ten_toDigits] using this

/-- A number written after a sign that is no digit can be split off. -/
theorem append_toDigits_inj {p q : List Char} {x : Char} {m n : Nat} (hx : x.isDigit = false)
    (h : p ++ x :: Nat.toDigits 10 m = q ++ x :: Nat.toDigits 10 n) : p = q ∧ m = n := by
  have key : ∀ (t : List Char) (i j : Nat),
      x :: Nat.toDigits 10 i = t ++ x :: Nat.toDigits 10 j → t = [] := by
    intro t i j ht
    cases t with
    | nil => rfl
    | cons y t =>
      simp only [List.cons_append, List.cons.injEq] at ht
      have hm : x ∈ Nat.toDigits 10 i := by rw [ht.2]; simp
      rw [Nat.isDigit_of_mem_toDigits (by decide) (by decide) hm] at hx
      cases hx
  rcases List.append_eq_append_iff.1 h with ⟨t, hq, ht⟩ | ⟨t, hp, ht⟩
  · have := key t m n ht; subst this
    simp only [List.nil_append, List.cons.injEq, true_and, List.append_nil] at ht hq
    exact ⟨hq.symm, toDigits_inj ht⟩
  · have := key t n m ht; subst this
    simp only [List.nil_append, List.cons.injEq, true_and, List.append_nil] at ht hp
    exact ⟨hp, (toDigits_inj ht).symm⟩

theorem toList_toString (n : Nat) : (toString n).toList = Nat.toDigits 10 n :=
  Nat.toList_repr

theorem TaskName.ofExecution_inj {a b : ExecutionName} {i j : Nat} :
    TaskName.ofExecution a i = TaskName.ofExecution b j ↔ a = b ∧ i = j := by
  constructor
  · intro h
    have h := congrArg (String.toList ∘ TaskName.text) h
    simp only [Function.comp, TaskName.ofExecution, String.toList_append, toList_toString] at h
    have h' := append_toDigits_inj (x := 'k') (p := a.text.toList ++ ['-', 't', 'a', 's'])
      (q := b.text.toList ++ ['-', 't', 'a', 's']) (by decide) (by simpa using h)
    obtain ⟨a⟩ := a
    obtain ⟨b⟩ := b
    exact ⟨congrArg ExecutionName.mk (String.toList_inj.1 (List.append_cancel_right h'.1)), h'.2⟩
  · rintro ⟨rfl, rfl⟩; rfl

/-- The text of a name is a beginning, a hyphen and the number. -/
def EndsIn (text : String) (n : Nat) : Prop := ∃ beginning, text = beginning ++ "-" ++ toString n

theorem EndsIn.number_eq {text : String} {m n : Nat} (hm : EndsIn text m) (hn : EndsIn text n) :
    m = n := by
  obtain ⟨p, rfl⟩ := hm
  obtain ⟨q, h⟩ := hn
  have h := congrArg String.toList h
  simp only [String.toList_append, toList_toString] at h
  exact (append_toDigits_inj (x := '-') (p := p.toList) (q := q.toList) (by decide)
    (by simpa using h)).2

end RenderFarm
