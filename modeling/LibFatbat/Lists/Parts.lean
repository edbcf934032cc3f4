import Mathlib.Algebra.Order.BigOperators.Group.List
import Mathlib.Algebra.Order.Group.Nat

/-!
# Lists put together from parts

For each element of a list, two functions give a part, that of the first never longer than that of
the second. What the first function puts together is what the second does only when it is so part
by part.
-/

namespace Lists

variable {α β : Type} {f g : α → List β}

/-- Parts of which none is longer are as long when they are altogether. -/
theorem length_eq_of_length_flatMap_eq (hle : ∀ a, (f a).length ≤ (g a).length) {l : List α}
    (h : (l.flatMap f).length = (l.flatMap g).length) : ∀ a ∈ l, (f a).length = (g a).length := by
  induction l with
  | nil => exact nofun
  | cons a l ih =>
    have htail : (l.flatMap f).length ≤ (l.flatMap g).length := by
      rw [List.length_flatMap, List.length_flatMap]
      exact List.sum_le_sum fun b _ => hle b
    rw [List.flatMap_cons, List.flatMap_cons, List.length_append, List.length_append] at h
    have hhead := hle a
    -- neither summand is larger, so that both are equal
    rw [List.forall_mem_cons]
    exact ⟨by omega, ih (by omega)⟩

/-- The lists have the same elements, the parts of one being sublists of those of the other. -/
theorem perm_flatMap_iff (hsub : ∀ a, (f a).Sublist (g a)) (l : List α) :
    (l.flatMap f).Perm (l.flatMap g) ↔ ∀ a ∈ l, f a = g a := by
  constructor
  · intro hperm a ha
    apply (hsub a).eq_of_length
    exact length_eq_of_length_flatMap_eq (fun b => (hsub b).length_le) hperm.length_eq a ha
  · intro heq
    rw [List.flatMap_congr heq]

/-- The lists are the same. -/
theorem flatMap_eq_flatMap_iff (hle : ∀ a, (f a).length ≤ (g a).length) (l : List α) :
    l.flatMap f = l.flatMap g ↔ ∀ a ∈ l, f a = g a := by
  constructor
  · intro h
    have hlength := length_eq_of_length_flatMap_eq hle (congrArg List.length h)
    -- parts of known lengths can be taken off from the front
    induction l with
    | nil => exact nofun
    | cons a l ih =>
      rw [List.forall_mem_cons] at hlength ⊢
      rw [List.flatMap_cons, List.flatMap_cons] at h
      obtain ⟨hhead, htail⟩ := List.append_inj h hlength.1
      exact ⟨hhead, ih htail hlength.2⟩
  · exact List.flatMap_congr

end Lists
