import Mathlib.Data.BitVec
import Mathlib.Data.Set.Lattice
import Mathlib.Tactic

/-!
# Words as sets of flags

A machine word whose bits are flags stands for the set of the positions at which it has a one. The
bitwise operations are those on sets, and so are loops that collect or clear flags.

* `bits_subset_iff`: the test whether a word includes all flags of another;
* `bits_foldl_or`: a loop that collects the flags of the elements of a list;
* `bits_foldl_clear`: a loop over the positions that clears some.
-/

namespace BitFlags

variable {w : ℕ}

/-- The flags that are set. -/
def bits (x : BitVec w) : Set ℕ := { i | x.getLsbD i = true }

@[simp] theorem mem_bits {x : BitVec w} {i : ℕ} : i ∈ bits x ↔ x.getLsbD i = true := Iff.rfl

theorem lt_of_mem_bits {x : BitVec w} {i : ℕ} (h : i ∈ bits x) : i < w :=
  BitVec.lt_of_getLsbD h

theorem bits_injective : Function.Injective (bits (w := w)) := by
  intro x y h
  apply BitVec.eq_of_getLsbD_eq
  intro i _
  have hmem : i ∈ bits x ↔ i ∈ bits y := by rw [h]
  exact Bool.eq_iff_iff.mpr hmem

@[simp] theorem bits_zero : bits 0#w = ∅ := by
  ext i
  simp

@[simp] theorem bits_or (x y : BitVec w) : bits (x ||| y) = bits x ∪ bits y := by
  ext i
  simp

@[simp] theorem bits_and (x y : BitVec w) : bits (x &&& y) = bits x ∩ bits y := by
  ext i
  simp

/-- A word with one flag. -/
theorem bits_twoPow {i : ℕ} (hi : i < w) : bits (BitVec.twoPow w i) = {i} := by
  ext j
  simp only [mem_bits, BitVec.getLsbD_twoPow, Set.mem_singleton_iff]
  grind

/-- A word includes all flags of another. -/
theorem bits_subset_iff {x y : BitVec w} : bits x ⊆ bits y ↔ y &&& x = x := by
  rw [← bits_injective.eq_iff, bits_and, Set.inter_eq_right]

/-- The test of one flag. -/
theorem and_twoPow_ne_zero_iff {x : BitVec w} {i : ℕ} :
    x &&& BitVec.twoPow w i ≠ 0#w ↔ i ∈ bits x := by
  rw [BitVec.and_twoPow, mem_bits]
  by_cases hi : x.getLsbD i = true
  · have hlt : i < w := BitVec.lt_of_getLsbD hi
    have hne : BitVec.twoPow w i ≠ 0#w := by
      intro hzero
      have hbits := bits_twoPow hlt
      rw [hzero, bits_zero] at hbits
      exact Set.singleton_ne_empty i hbits.symm
    simp [hi, hne]
  · simp [hi]

/-- A loop that collects the flags of the elements of a list. -/
theorem bits_foldl_or {α : Type*} (f : α → BitVec w) (l : List α) (z : BitVec w) :
    bits (l.foldl (fun a x => a ||| f x) z) = bits z ∪ { i | ∃ x ∈ l, i ∈ bits (f x) } := by
  induction l generalizing z with
  | nil => simp
  | cons x l ih =>
    ext i
    rw [List.foldl_cons, ih]
    simp [or_assoc]

/-- A loop over the first positions that clears the flags for which a test holds. -/
theorem bits_foldl_clear (p : ℕ → Prop) [DecidablePred p] (x : BitVec w) {n : ℕ} (hn : n ≤ w) :
    bits ((List.range n).foldl (fun a i => if p i then a &&& ~~~BitVec.twoPow w i else a) x) =
      { i ∈ bits x | i < n → ¬ p i } := by
  induction n with
  | zero =>
    ext i
    simp
  | succ n ih =>
    rw [List.range_succ, List.foldl_append, List.foldl_cons, List.foldl_nil]
    have ih := ih (Nat.le_of_succ_le hn)
    ext i
    have hi := Set.ext_iff.mp ih i
    -- the last turn of the loop only touches its own position
    by_cases hp : p n
    · rw [if_pos hp, bits_and, Set.mem_inter_iff, hi]
      simp only [mem_bits, BitVec.getLsbD_not, BitVec.getLsbD_twoPow, Set.mem_ofPred_eq]
      grind
    · rw [if_neg hp, hi]
      simp only [mem_bits, Set.mem_ofPred_eq]
      grind

end BitFlags
