import Mathlib.Data.BitVec
import Mathlib.Tactic.Common

/-!
# Counters that wrap around

A counter of `w` bits that was incremented `n` times holds `BitVec.ofNat w n`. Two such counters are
compared in two ways. Subtraction is exact as long as they are less than `2 ^ w` apart
(`toNat_ofNat_sub_ofNat`). With `<` it also matters that they have wrapped around equally often:
`not_ofNat_lt_imp_le_iff` says when a loop that waits while the one is less than the other has
waited long enough.
-/

namespace WrappingCounter

variable {w a b c : ℕ}

/-- The difference of two counters. -/
theorem toNat_ofNat_sub_ofNat (hle : a ≤ b) (hlt : b < a + 2 ^ w) :
    (BitVec.ofNat w b - BitVec.ofNat w a).toNat = b - a := by
  have hsub : BitVec.ofNat w b - BitVec.ofNat w a = BitVec.ofNat w (b - a) := by
    rw [BitVec.sub_eq_iff_eq_add, ← BitVec.ofNat_add, Nat.sub_add_cancel hle]
  rw [hsub, BitVec.toNat_ofNat, Nat.mod_eq_of_lt (by omega)]

/-- Counters that have wrapped around equally often compare like the numbers. -/
theorem ofNat_lt_ofNat_iff (hwraps : a / 2 ^ w = b / 2 ^ w) :
    BitVec.ofNat w a < BitVec.ofNat w b ↔ a < b := by
  have ha := Nat.div_add_mod a (2 ^ w)
  have hb := Nat.div_add_mod b (2 ^ w)
  rw [BitVec.lt_def, BitVec.toNat_ofNat, BitVec.toNat_ofNat]
  rw [hwraps] at ha
  omega

/-- Of two counters that are less than `2 ^ w` apart, the one that is ahead is not the greater one
when it has wrapped around once more. -/
theorem not_ofNat_lt_ofNat (hwraps : a / 2 ^ w < b / 2 ^ w) (hlt : b < a + 2 ^ w) :
    ¬ BitVec.ofNat w a < BitVec.ofNat w b := by
  have ha := Nat.div_add_mod a (2 ^ w)
  have hb := Nat.div_add_mod b (2 ^ w)
  have hmul : 2 ^ w * (a / 2 ^ w + 1) ≤ 2 ^ w * (b / 2 ^ w) := Nat.mul_le_mul_left _ hwraps
  rw [Nat.mul_add, Nat.mul_one] at hmul
  rw [BitVec.lt_def, BitVec.toNat_ofNat, BitVec.toNat_ofNat]
  omega

/-- That `a` is not less than `b` by their counters tells that it has reached `c` if and only if the
counters have wrapped around equally often while it has not. -/
theorem not_ofNat_lt_imp_le_iff (hc : c ≤ b) (hlt : b < a + 2 ^ w) :
    (¬ BitVec.ofNat w a < BitVec.ofNat w b → c ≤ a) ↔ (a < c → b / 2 ^ w ≤ a / 2 ^ w) := by
  constructor
  · intro himp hac
    by_contra! hwraps
    exact absurd (himp (not_ofNat_lt_ofNat hwraps hlt)) (Nat.not_le.mpr hac)
  · intro hwraps hnlt
    by_contra! hac
    have heq : a / 2 ^ w = b / 2 ^ w := le_antisymm (Nat.div_le_div_right (by omega)) (hwraps hac)
    exact hnlt ((ofNat_lt_ofNat_iff heq).mpr (by omega))

/-- The counters may be read at different times, while the numbers grow: `a` was read on the way to
`d`, and `b` when `c` or more was reached. If neither read was made when one counter had wrapped
around more often, and `a` is not less than `b` by the counters, then `d` has reached `c`. -/
theorem le_of_not_ofNat_lt {d : ℕ} (had : a ≤ d) (hcb : c ≤ b)
    (ha : d < c → c / 2 ^ w ≤ a / 2 ^ w) (hb : d < c → b / 2 ^ w ≤ d / 2 ^ w)
    (hnlt : ¬ BitVec.ofNat w a < BitVec.ofNat w b) : c ≤ d := by
  by_contra! hdc
  have hca : c / 2 ^ w ≤ a / 2 ^ w := ha hdc
  have hbd : b / 2 ^ w ≤ d / 2 ^ w := hb hdc
  have hdc' : d / 2 ^ w ≤ c / 2 ^ w := Nat.div_le_div_right hdc.le
  -- the numbers of turns are squeezed: `c ≤ a ≤ b ≤ d ≤ c`
  have hab : a / 2 ^ w ≤ b / 2 ^ w := Nat.div_le_div_right (by omega)
  exact hnlt ((ofNat_lt_ofNat_iff (by omega)).mpr (by omega))

/-- When the counter of the entries of a list with a property is not less than that of the list, all
of them have it, unless the list is too long. -/
theorem forall_of_not_ofNat_lt {α : Type*} {p : α → Bool} {xs : List α}
    (hlength : xs.length < 2 ^ w)
    (h : ¬ BitVec.ofNat w (xs.countP p) < BitVec.ofNat w xs.length) : ∀ x ∈ xs, p x = true := by
  have hle : xs.countP p ≤ xs.length := List.countP_le_length
  have hwraps : xs.countP p / 2 ^ w = xs.length / 2 ^ w := by
    rw [Nat.div_eq_of_lt hlength, Nat.div_eq_of_lt (hle.trans_lt hlength)]
  rw [ofNat_lt_ofNat_iff hwraps, Nat.not_lt] at h
  exact List.countP_eq_length.mp (le_antisymm hle h)

end WrappingCounter
