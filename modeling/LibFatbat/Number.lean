import Mathlib.Tactic

/-!
# Doubles and equal shares

The double nearest to an integer: a double has 53 bits of precision, and a tie goes to the one whose
last bit is 0. The largest exponent, which integers of fewer than 1024 bits do not reach, is left
out.

A list of `n` things that is cut into `p` shares, one after the other, of which the first `n % p`
have one thing more than the others.
-/

namespace Double

/-- The double nearest to a natural number. -/
def roundNat (n : ℕ) : ℕ :=
  if n ≤ 2 ^ 53 then n
  else
    let exponent := n.log2 - 52
    let mantissa := n >>> exponent
    let rest := n % 2 ^ exponent
    let half := 2 ^ (exponent - 1)
    if rest < half ∨ (rest = half ∧ mantissa % 2 = 0) then mantissa * 2 ^ exponent
    else (mantissa + 1) * 2 ^ exponent

/-- The double nearest to an integer. -/
def round (x : ℤ) : ℤ := x.sign * roundNat x.natAbs

/-- Integers of up to 53 bits are doubles. -/
theorem round_of_natAbs_le {x : ℤ} (h : x.natAbs ≤ 2 ^ 53) : round x = x := by
  unfold round roundNat
  rw [if_pos h]
  exact Int.sign_mul_natAbs x

theorem round_natCast {n : ℕ} (h : n ≤ 2 ^ 53) : round n = n :=
  round_of_natAbs_le (by omega)

example : round (2 ^ 53 + 1) = 2 ^ 53 := by decide

example : round (2 ^ 53 + 3) = 2 ^ 53 + 4 := by decide

end Double

namespace Shares

/-- The size of share `r`. -/
def count (n p r : ℕ) : ℕ := if r < n % p then n / p + 1 else n / p

/-- Where share `r` begins. -/
def start (n p r : ℕ) : ℕ := r * (n / p) + min r (n % p)

variable {n p r : ℕ}

theorem start_zero (n p : ℕ) : start n p 0 = 0 := by simp [start]

/-- A share ends where the next begins. -/
theorem start_succ (n p r : ℕ) : start n p (r + 1) = start n p r + count n p r := by
  unfold start count
  rw [Nat.succ_mul]
  split
  · rw [Nat.min_eq_left (by omega), Nat.min_eq_left (by omega)]
    omega
  · rw [Nat.min_eq_right (by omega), Nat.min_eq_right (by omega)]
    omega

/-- The last share ends at the end. -/
theorem start_self (hp : 0 < p) : start n p p = n := by
  unfold start
  rw [Nat.min_eq_right (Nat.mod_lt n hp).le]
  exact Nat.div_add_mod n p

theorem start_mono (n p : ℕ) : Monotone (start n p) := by
  refine monotone_nat_of_le_succ fun r => ?_
  rw [start_succ]
  exact Nat.le_add_right _ _

/-- A share ends before a later one begins. -/
theorem start_add_count_le {s : ℕ} (h : r < s) : start n p r + count n p r ≤ start n p s := by
  rw [← start_succ]
  exact start_mono n p h

theorem count_le_succ (n p r s : ℕ) : count n p r ≤ count n p s + 1 := by
  unfold count
  split
  · split
    · omega
    · omega
  · split
    · omega
    · omega

/-- Share `r` of a list. -/
def share {α : Type} (l : List α) (p r : ℕ) : List α :=
  (l.drop (start l.length p r)).take (count l.length p r)

/-- The first shares are the beginning of the list. -/
theorem flatMap_share_take {α : Type} (l : List α) (p r : ℕ) :
    (List.range r).flatMap (share l p) = l.take (start l.length p r) := by
  induction r with
  | zero => rw [start_zero]; rfl
  | succ r ih =>
    rw [List.range_succ, List.flatMap_append, ih, List.flatMap_singleton, start_succ,
      List.take_add]
    rfl

/-- All shares are the list. -/
theorem flatMap_share {α : Type} (l : List α) (hp : 0 < p) :
    (List.range p).flatMap (share l p) = l := by
  rw [flatMap_share_take, start_self hp, List.take_length]

/-- Two shares of a list of different things have nothing in common. -/
theorem disjoint_share {α : Type} {l : List α} (hl : l.Nodup) (p : ℕ) {r s : ℕ} (h : r < s) :
    (share l p r).Disjoint (share l p s) := by
  have hends : start l.length p r + count l.length p r ≤ start l.length p s :=
    start_add_count_le h
  have hfirst : share l p r ⊆ l.take (start l.length p r + count l.length p r) := by
    unfold share
    rw [List.take_add]
    exact List.subset_append_right _ _
  have hsecond : share l p s ⊆ l.drop (start l.length p s) := List.take_subset _ _
  intro x hr hs
  exact List.disjoint_take_drop hl hends (hfirst hr) (hsecond hs)

end Shares
