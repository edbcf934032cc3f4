import Mathlib.Tactic

/-!
# Numbers as streams of bits

A list of numbers of `w` bits each is read as one stream of bits, the most significant bit of each
number first. A codec that regroups bits, say from bytes into characters of six bits, keeps the
stream.

Main result: `word_append`. Two numbers side by side are one number of the sum of the widths.
-/

namespace BitStream

/-- The low `w` bits of a number, the most significant first. -/
def word : ℕ → ℕ → List Bool
  | 0, _ => []
  | w + 1, v => v.testBit w :: word w v

/-- The bits of a list of numbers, `w` of each. -/
def stream (w : ℕ) (vs : List ℕ) : List Bool := vs.flatMap (word w)

@[simp] theorem length_word (w v : ℕ) : (word w v).length = w := by
  induction w with
  | zero => rfl
  | succ w ih => rw [word, List.length_cons, ih]

/-- The bits of a number are those of its high part and those of its low part. -/
theorem word_add (a b v : ℕ) : word (a + b) v = word a (v / 2 ^ b) ++ word b v := by
  induction a with
  | zero => rw [Nat.zero_add, word, List.nil_append]
  | succ a ih =>
    rw [Nat.succ_add, word, ih, word, List.cons_append, Nat.testBit_div_two_pow]

/-- Only the low bits count. -/
theorem word_congr {w x y : ℕ} (h : x % 2 ^ w = y % 2 ^ w) : word w x = word w y := by
  have hbit : ∀ i < w, x.testBit i = y.testBit i := by
    intro i hi
    have hx := Nat.testBit_mod_two_pow x w i
    have hy := Nat.testBit_mod_two_pow y w i
    rw [h, hy] at hx
    simpa [hi] using hx.symm
  clear h
  induction w with
  | zero => rfl
  | succ w ih =>
    rw [word, word, hbit w (Nat.lt_succ_self w), ih fun i hi => hbit i (Nat.lt_succ_of_lt hi)]

/-- Two numbers side by side. -/
theorem word_append {a b x y : ℕ} (hy : y < 2 ^ b) :
    word a x ++ word b y = word (a + b) (x * 2 ^ b + y) := by
  have hhigh : (x * 2 ^ b + y) / 2 ^ b = x := by
    rw [Nat.mul_comm, Nat.mul_add_div (Nat.two_pow_pos b), Nat.div_eq_of_lt hy, Nat.add_zero]
  have hlow : (x * 2 ^ b + y) % 2 ^ b = y % 2 ^ b := Nat.mul_add_mod_self_right x (2 ^ b) y
  rw [word_add, hhigh, word_congr hlow]

@[simp] theorem stream_nil (w : ℕ) : stream w [] = [] := rfl

@[simp] theorem stream_cons (w v : ℕ) (vs : List ℕ) :
    stream w (v :: vs) = word w v ++ stream w vs := List.flatMap_cons

end BitStream
