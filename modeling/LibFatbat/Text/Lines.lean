import Mathlib.Data.List.Infix
import Mathlib.Data.Nat.Notation
import Mathlib.Tactic.Common

/-!
# Numbers, lines, columns and occurrences

A natural number as `%d` prints it, and the number that a text of digits stands for. A text that is
printed line by line is split into these lines again; a column is a text padded with blanks; and a
text that contains a letter once occurs in another at that letter or not at all.
-/

namespace Text

/-! ### Decimal numbers -/

section Decimal

/-- A number in decimal. -/
def decimal (n : ℕ) : List Char := Nat.toDigits 10 n

/-- The number that digits stand for. -/
def digitsValue (cs : List Char) : ℕ := Nat.ofDigitChars 10 cs 0

/-- One digit or more, and nothing else: what `^[0-9]+$` matches. -/
def isDigits (cs : List Char) : Bool := !cs.isEmpty && cs.all Char.isDigit

variable {n : ℕ} {c : Char}

/-- A number is read back as it was printed. -/
@[simp]
theorem digitsValue_decimal (n : ℕ) : digitsValue (decimal n) = n :=
  Nat.ofDigitChars_ten_toDigits

theorem decimal_ne_nil (n : ℕ) : decimal n ≠ [] := Nat.toDigits_ne_nil

theorem isDigit_of_mem_decimal (h : c ∈ decimal n) : c.isDigit = true :=
  Nat.isDigit_of_mem_toDigits (by decide) (by decide) h

@[simp]
theorem isDigits_decimal (n : ℕ) : isDigits (decimal n) = true := by
  unfold isDigits
  rw [Bool.and_eq_true, Bool.not_eq_true', List.isEmpty_eq_false_iff, List.all_eq_true]
  exact ⟨decimal_ne_nil n, fun c hc => isDigit_of_mem_decimal hc⟩

/-- A character that is no digit is not in a number. -/
theorem not_mem_decimal (hc : c.isDigit = false) (n : ℕ) : c ∉ decimal n := by
  intro hmem
  rw [isDigit_of_mem_decimal hmem] at hc
  exact Bool.noConfusion hc

end Decimal

/-! ### Lines -/

/-- The characters at which Python's `splitlines` splits a text. -/
def isLineBreak (c : Char) : Bool :=
  (10 ≤ c.toNat && c.toNat ≤ 13) || (28 ≤ c.toNat && c.toNat ≤ 30) || c.toNat = 133 ||
    c.toNat = 8232 || c.toNat = 8233

/-- `splitlines`. -/
def splitLines : List Char → List (List Char)
  | [] => []
  | '\r' :: '\n' :: cs => [] :: splitLines cs
  | c :: cs =>
    if isLineBreak c then [] :: splitLines cs
    else
      match splitLines cs with
      | [] => [[c]]
      | line :: lines => (c :: line) :: lines

/-- Lines as they are printed. -/
def unlines (lines : List (List Char)) : List Char := lines.flatMap (· ++ ['\n'])

/-- A text without a line break. -/
def isUnbroken (cs : List Char) : Bool := cs.all fun c => !isLineBreak c

theorem isUnbroken_append (cs ds : List Char) :
    isUnbroken (cs ++ ds) = (isUnbroken cs && isUnbroken ds) := List.all_append

theorem isLineBreak_of_isUnbroken {cs : List Char} (h : isUnbroken cs = true) :
    ∀ c ∈ cs, isLineBreak c = false := by
  intro c hc
  have := List.all_eq_true.mp h c hc
  rwa [Bool.not_eq_true'] at this

theorem splitLines_cons {c : Char} (hc : isLineBreak c = false) (cs : List Char) :
    splitLines (c :: cs) =
      match splitLines cs with
      | [] => [[c]]
      | line :: lines => (c :: line) :: lines := by
  have hreturn : c ≠ '\r' := by
    rintro rfl
    exact absurd hc (by decide)
  rw [splitLines.eq_def]
  split
  · contradiction
  · rename_i heq
    exact absurd (List.cons_eq_cons.mp heq).1 hreturn
  · rename_i heq
    obtain ⟨rfl, rfl⟩ := List.cons_eq_cons.mp heq
    rw [hc]
    rfl

/-- A line is split off at its newline. -/
theorem splitLines_append {line : List Char} (hline : ∀ c ∈ line, isLineBreak c = false)
    (cs : List Char) : splitLines (line ++ '\n' :: cs) = line :: splitLines cs := by
  induction line with
  | nil => rfl
  | cons c line ih =>
    obtain ⟨hc, hline⟩ := List.forall_mem_cons.mp hline
    rw [List.cons_append, splitLines_cons hc, ih hline]

/-- Lines without a break are split as they were printed. -/
theorem splitLines_unlines {lines : List (List Char)}
    (hlines : ∀ line ∈ lines, isUnbroken line = true) :
    splitLines (unlines lines) = lines := by
  induction lines with
  | nil => rfl
  | cons line lines ih =>
    obtain ⟨hline, hlines⟩ := List.forall_mem_cons.mp hlines
    have hrest : unlines (line :: lines) = line ++ '\n' :: unlines lines := by
      unfold unlines
      rw [List.flatMap_cons, List.append_assoc, List.singleton_append]
    rw [hrest, splitLines_append (isLineBreak_of_isUnbroken hline), ih hlines]

/-! ### Columns -/

/-- A text in a column, to the left. -/
def padRight (width : ℕ) (cs : List Char) : List Char :=
  cs ++ List.replicate (width - cs.length) ' '

theorem isUnbroken_padRight (width : ℕ) (cs : List Char) :
    isUnbroken (padRight width cs) = isUnbroken cs := by
  have hblanks : isUnbroken (List.replicate (width - cs.length) ' ') = true := by
    rw [isUnbroken, List.all_eq_true]
    intro c hc
    rw [List.eq_of_mem_replicate hc]
    decide
  rw [padRight, isUnbroken_append, hblanks, Bool.and_true]

/-! ### Occurrences -/

/-- A text that contains a letter once occurs in another that contains it once exactly when the
texts before and after the letter agree. -/
theorem infix_iff_of_notMem {α : Type} {a : α} {u v x y : List α} (hx : a ∉ x) (hy : a ∉ y) :
    u ++ a :: v <:+: x ++ a :: y ↔ u <:+ x ∧ v <+: y := by
  constructor
  · rintro ⟨s, t, h⟩
    have hsplit : x ++ a :: y = (s ++ u) ++ a :: (v ++ t) := by
      rw [← h]
      simp
    obtain ⟨hbefore, -, hafter⟩ := (List.append_cons_inj_of_notMem hx hy).mp hsplit
    exact ⟨⟨s, hbefore.symm⟩, t, hafter.symm⟩
  · rintro ⟨⟨s, rfl⟩, t, rfl⟩
    exact ⟨s, t, by simp⟩

end Text
