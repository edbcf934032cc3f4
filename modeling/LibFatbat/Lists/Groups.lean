import Mathlib.Data.List.Dedup
import Mathlib.Data.List.MinMax
import Mathlib.Data.List.Sort

/-!
# The best of each group

The elements of a list are grouped by a key, and of each group the one with the largest value is
kept, the groups in the order of their keys. Looked up with a condition on the key, the list of the
best gives the best of the group with the least key.
-/

namespace Lists

variable {α κ β : Type} [LinearOrder κ] [LinearOrder β]

/-- The keys of a list, in increasing order, each once. -/
def groupKeys (key : α → κ) (l : List α) : List κ := (l.map key).dedup.insertionSort (· ≤ ·)

/-- The elements with a key, in the order of the list. -/
def group (key : α → κ) (l : List α) (k : κ) : List α := l.filter fun a => key a = k

/-- The element of each group that has the largest value, the first such one. -/
def groupBests (key : α → κ) (value : α → β) (l : List α) : List α :=
  (groupKeys key l).filterMap fun k => (group key l k).argmax value

/-- The best of the group with the least key, of the groups for whose elements `p` holds. -/
structure IsLeastBest (key : α → κ) (value : α → β) (l : List α) (p : α → Bool) (a : α) :
    Prop where
  mem : a ∈ l
  holds : p a
  least : ∀ b ∈ l, p b → key a ≤ key b
  best : ∀ b ∈ l, key b = key a → value b ≤ value a

variable {key : α → κ} {value : α → β} {l : List α} {p : α → Bool} {a : α} {k : κ}

theorem mem_groupKeys : k ∈ groupKeys key l ↔ ∃ a ∈ l, key a = k := by
  rw [groupKeys, List.mem_insertionSort, List.mem_dedup, List.mem_map]

theorem pairwise_groupKeys (key : α → κ) (l : List α) : (groupKeys key l).Pairwise (· ≤ ·) :=
  List.pairwise_insertionSort _ _

theorem mem_group : a ∈ group key l k ↔ a ∈ l ∧ key a = k := by
  rw [group, List.mem_filter, decide_eq_true_iff]

/-- The group of an element is not empty. -/
theorem exists_argmax_group (key : α → κ) (value : α → β) (ha : a ∈ l) :
    ∃ b, (group key l (key a)).argmax value = some b ∧ key b = key a := by
  cases hbest : (group key l (key a)).argmax value with
  | none =>
    rw [List.argmax_eq_none] at hbest
    exact absurd (mem_group.mpr ⟨ha, rfl⟩) (hbest ▸ List.not_mem_nil)
  | some b => exact ⟨b, rfl, (mem_group.mp (List.argmax_mem hbest)).2⟩

/-- Nothing is found only if there is no such element. -/
theorem find?_groupBests_eq_none (hp : ∀ a b, key a = key b → p a = p b) :
    (groupBests key value l).find? p = none ↔ ∀ a ∈ l, p a = false := by
  rw [groupBests, List.find?_eq_none]
  simp only [List.mem_filterMap, mem_groupKeys, Bool.not_eq_true]
  constructor
  · intro h a ha
    obtain ⟨b, hbest, hkey⟩ := exists_argmax_group key value ha
    rw [← hp b a hkey]
    exact h b ⟨key a, ⟨a, ha, rfl⟩, hbest⟩
  · rintro h b ⟨k, -, hbest⟩
    exact h b (mem_group.mp (List.argmax_mem hbest)).1

/-- What is found first is the best of the group with the least key. -/
theorem isLeastBest_of_find? (hp : ∀ a b, key a = key b → p a = p b)
    (h : (groupBests key value l).find? p = some a) : IsLeastBest key value l p a := by
  rw [groupBests, List.find?_filterMap] at h
  obtain ⟨k, hk, hbest⟩ := Option.bind_eq_some_iff.mp h
  obtain ⟨hmem, rfl⟩ := mem_group.mp (List.argmax_mem hbest)
  obtain ⟨hholds, before, after, hsplit, hbefore⟩ := List.find?_eq_some_iff_append.mp hk
  rw [hbest, Option.any_some] at hholds
  refine ⟨hmem, hholds, fun b hb hpb => ?_, fun b hb hkey => ?_⟩
  · have hsorted := pairwise_groupKeys key l
    have hkb : key b ∈ groupKeys key l := mem_groupKeys.mpr ⟨b, hb, rfl⟩
    rw [hsplit] at hsorted hkb
    rcases List.mem_append.mp hkb with hearly | hlate
    · -- the best of a group that comes before would have been found
      obtain ⟨b', hbest', hkey'⟩ := exists_argmax_group key value hb
      have hfails := hbefore _ hearly
      rw [hbest', Option.any_some, hp b' b hkey', hpb] at hfails
      cases hfails
    · rcases List.mem_cons.mp hlate with heq | hafter
      · exact heq.ge
      · exact (List.pairwise_cons.mp (List.pairwise_append.mp hsorted).2.1).1 _ hafter
  · exact List.le_of_mem_argmax (mem_group.mpr ⟨hb, hkey⟩) hbest

end Lists
