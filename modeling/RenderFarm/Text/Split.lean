/-!
# RenderFarm.Text.Split

Parts of a list between separators. There is always one part more than there are separators.

* `join_split`: the parts, with the separators between them again, are the list.
* `not_mem_of_mem_split`: no part contains a separator.
-/

namespace RenderFarm
namespace Text

variable {α : Type} [DecidableEq α]

/-- The parts between the separators. -/
def split (sep : α) : List α → List (List α)
  | [] => [[]]
  | a :: as =>
    if a = sep then [] :: split sep as
    else
      match split sep as with
      | [] => [[a]]
      | part :: parts => (a :: part) :: parts

/-- The parts one after the other, with a separator between each two. -/
def join (sep : α) : List (List α) → List α
  | [] => []
  | [part] => part
  | part :: parts => part ++ sep :: join sep parts

theorem split_ne_nil (sep : α) (as : List α) : split sep as ≠ [] := by
  cases as with
  | nil => simp [split]
  | cons a as =>
    simp only [split]
    split
    · simp
    · split <;> simp

theorem join_split (sep : α) (as : List α) : join sep (split sep as) = as := by
  induction as with
  | nil => rfl
  | cons a as ih =>
    simp only [split]
    split
    · rename_i h
      cases hs : split sep as with
      | nil => exact absurd hs (split_ne_nil sep as)
      | cons p ps => rw [hs] at ih; simp [join, ih, h]
    · cases hs : split sep as with
      | nil => exact absurd hs (split_ne_nil sep as)
      | cons p ps =>
        rw [hs] at ih
        cases ps with
        | nil => simp_all [join]
        | cons q qs => simp_all [join]

theorem not_mem_of_mem_split {sep : α} {as part : List α} (h : part ∈ split sep as) :
    sep ∉ part := by
  induction as generalizing part with
  | nil => simp_all [split]
  | cons a as ih =>
    simp only [split] at h
    split at h
    · rcases List.mem_cons.1 h with rfl | h
      · simp
      · exact ih h
    · rename_i ha
      split at h
      · simp only [List.mem_singleton] at h
        subst h
        simp [Ne.symm ha]
      · rename_i p ps hs
        rcases List.mem_cons.1 h with rfl | h
        · simpa [Ne.symm ha] using ih (hs ▸ List.mem_cons_self)
        · exact ih (hs ▸ List.mem_cons_of_mem _ h)

end Text
end RenderFarm
