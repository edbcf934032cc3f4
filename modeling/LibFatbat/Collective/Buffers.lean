import Mathlib.Data.Finset.Card
import Mathlib.Data.Finset.Range
import Mathlib.Data.List.Nodup
import Mathlib.Data.List.Range
import Mathlib.Logic.Function.Basic
import Mathlib.Tactic.Common

/-!
# Ranks and their buffers

What the tests have in common: the loops over the ranks of a job, which skip the rank that runs
them; `verify_buffer` of `test_utils.hpp`, which compares a buffer with one byte, index after index,
while other messages may still be written into the buffer; and the writing of a message into a
buffer, of which the bytes arrive in any order. Buffers have names in a type `β`, and hold bytes in
`α`.
-/

namespace LibFatbat

/-! ### The other ranks of a job -/

/-- The ranks below `k` other than `i`. -/
def otherRanks (i k : ℕ) : List ℕ := (List.range k).filter (· ≠ i)

theorem mem_otherRanks {i k r : ℕ} : r ∈ otherRanks i k ↔ r < k ∧ r ≠ i := by
  simp [otherRanks]

theorem otherRanks_succ (i k : ℕ) :
    otherRanks i (k + 1) = otherRanks i k ++ if k ≠ i then [k] else [] := by
  rw [otherRanks, List.range_succ, List.filter_append]
  by_cases hk : k = i <;> simp [otherRanks, hk]

/-- Rank 1 begins with rank 0. -/
theorem otherRanks_one {k : ℕ} (hk : 0 < k) : ∃ rest, otherRanks 1 k = 0 :: rest := by
  obtain ⟨n, rfl⟩ := Nat.exists_eq_succ_of_ne_zero hk.ne'
  rw [otherRanks, List.range_succ_eq_map]
  exact ⟨_, List.filter_cons_of_pos (by simp)⟩

theorem otherRanks_nodup (i k : ℕ) : (otherRanks i k).Nodup := List.nodup_range.filter _

theorem length_otherRanks_le (i k : ℕ) : (otherRanks i k).length ≤ k :=
  (List.length_filter_le ..).trans_eq List.length_range

/-- A rank has one peer less than there are ranks. -/
theorem length_otherRanks {i size : ℕ} (hi : i < size) : (otherRanks i size).length = size - 1 := by
  have hremoved := List.length_erase_of_mem (List.mem_range.mpr hi)
  rw [List.length_range, List.nodup_range.erase_eq_filter] at hremoved
  rw [← hremoved, otherRanks]
  refine congrArg List.length (List.filter_congr fun r _ => ?_)
  by_cases hr : r = i <;> simp [hr]

/-! ### Buffers -/

variable {α β : Type*}

/-- The contents of the buffers. -/
abbrev Buffers (β α : Type*) := β → ℕ → α

/-- The first `size` bytes of a buffer. -/
def Buffers.Filled (mem : Buffers β α) (buf : β) (size : ℕ) (value : α) : Prop :=
  ∀ j < size, mem buf j = value

/-- One byte of a buffer is written. -/
def Buffers.write [DecidableEq β] (mem : Buffers β α) (buf : β) (j : ℕ) (value : α) :
    Buffers β α :=
  Function.update mem buf (Function.update (mem buf) j value)

/-- A buffer is filled by `std::fill`. -/
def Buffers.fill [DecidableEq β] (mem : Buffers β α) (buf : β) (size : ℕ) (value : α) :
    Buffers β α :=
  Function.update mem buf fun j => if j < size then value else mem buf j

section Buffers

variable [DecidableEq β] {mem : Buffers β α} {buf buf' : β} {size size' j : ℕ} {value value' : α}

theorem Buffers.write_eq (mem : Buffers β α) (buf buf' : β) (j k : ℕ) (value : α) :
    mem.write buf j value buf' k = if buf' = buf ∧ k = j then value else mem buf' k := by
  unfold Buffers.write
  by_cases hbuf : buf' = buf
  · subst hbuf
    by_cases hk : k = j
    · simp [hk]
    · simp [hk]
  · simp [hbuf]

/-- What is filled with a byte stays so when that byte is written. -/
theorem Buffers.Filled.write (h : mem.Filled buf size value)
    (hsame : buf' = buf → j < size → value' = value) :
    (mem.write buf' j value').Filled buf size value := by
  intro k hk
  rw [Buffers.write_eq]
  split
  · next heq => exact hsame heq.1.symm (heq.2 ▸ hk)
  · exact h k hk

theorem Buffers.filled_fill (mem : Buffers β α) (buf : β) (size : ℕ) (value : α) :
    (mem.fill buf size value).Filled buf size value := by
  intro j hj
  simp [Buffers.fill, hj]

theorem Buffers.Filled.fill (h : mem.Filled buf size value)
    (hsame : buf' = buf → value' = value) :
    (mem.fill buf' size' value').Filled buf size value := by
  intro j hj
  by_cases hbuf : buf = buf'
  · subst hbuf
    simp only [Buffers.fill, Function.update_self]
    split
    · exact hsame rfl
    · exact h j hj
  · simpa [Buffers.fill, hbuf] using h j hj

end Buffers

/-! ### Bytes that are not written yet -/

/-- The bytes of a message that are missing. -/
def missing (size : ℕ) (written : List ℕ) : ℕ :=
  ((Finset.range size).filter (· ∉ written)).card

theorem missing_le (size : ℕ) (written : List ℕ) : missing size written ≤ size :=
  (Finset.card_filter_le ..).trans_eq (Finset.card_range size)

/-- A byte that is written is not missing any more. -/
theorem missing_cons_lt {size j : ℕ} {written : List ℕ} (hj : j < size) (hnew : j ∉ written) :
    missing size (j :: written) < missing size written := by
  apply Finset.card_lt_card
  rw [Finset.ssubset_iff_of_subset]
  · refine ⟨j, Finset.mem_filter.mpr ⟨Finset.mem_range.mpr hj, hnew⟩, fun hmem => ?_⟩
    exact (Finset.mem_filter.mp hmem).2 List.mem_cons_self
  · intro k hk
    obtain ⟨hrange, hmissing⟩ := Finset.mem_filter.mp hk
    exact Finset.mem_filter.mpr ⟨hrange, fun hmem => hmissing (List.mem_cons_of_mem j hmem)⟩

/-! ### `verify_buffer` -/

/-- Where a call of `verify_buffer` is. -/
inductive VerifyPc
  /-- In the loop. -/
  | index (i : ℕ)
  | returned
  /-- It has thrown "Buffer validation failed". -/
  | thrown
  deriving DecidableEq

/-- The steps of `verify_buffer` on a buffer of `messageSize` bytes. -/
inductive VerifyStep (mem : Buffers β α) (buf : β) (messageSize : ℕ) (expected : α) :
    VerifyPc → VerifyPc → Prop
  | equal {i : ℕ} (hi : i < messageSize) (heq : mem buf i = expected) :
      VerifyStep mem buf messageSize expected (.index i) (.index (i + 1))
  | differs {i : ℕ} (hi : i < messageSize) (hne : mem buf i ≠ expected) :
      VerifyStep mem buf messageSize expected (.index i) .thrown
  | ret : VerifyStep mem buf messageSize expected (.index messageSize) .returned

/-- A call that has not thrown, with its index in the buffer. -/
def VerifyPc.Valid (messageSize : ℕ) : VerifyPc → Prop
  | index i => i ≤ messageSize
  | returned => True
  | thrown => False

/-- The steps that are left to a call. -/
def VerifyPc.stepsLeft (messageSize : ℕ) : VerifyPc → ℕ
  | index i => messageSize - i + 1
  | returned | thrown => 0

section Verify

variable {mem : Buffers β α} {buf : β} {messageSize : ℕ} {expected : α} {pc pc' : VerifyPc}

/-- On a buffer that is filled with the expected byte `verify_buffer` does not throw. -/
theorem VerifyStep.valid (h : VerifyStep mem buf messageSize expected pc pc')
    (hfilled : mem.Filled buf messageSize expected) : pc'.Valid messageSize := by
  cases h with
  | differs hi hne => exact absurd (hfilled _ hi) hne
  | equal hi heq => exact hi
  | ret => trivial

/-- And it goes on until it returns. -/
theorem VerifyPc.Valid.exists_step (hvalid : pc.Valid messageSize) (hpc : pc ≠ .returned)
    (hfilled : mem.Filled buf messageSize expected) :
    ∃ pc', VerifyStep mem buf messageSize expected pc pc' ∧
      pc'.stepsLeft messageSize < pc.stepsLeft messageSize := by
  cases pc with
  | index i =>
    rcases Nat.eq_or_lt_of_le hvalid with rfl | hi
    · exact ⟨_, .ret, Nat.succ_pos _⟩
    · refine ⟨_, .equal hi (hfilled i hi), ?_⟩
      simp only [VerifyPc.stepsLeft]
      omega
  | returned => exact absurd rfl hpc
  | thrown => exact hvalid.elim

end Verify

end LibFatbat
