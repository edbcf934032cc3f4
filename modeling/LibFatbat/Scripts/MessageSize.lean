import LibFatbat.Number
import LibFatbat.Scripts.ReadBack

/-!
# Message sizes

`format_bytes` of `plot_benchmark_results.py`, which labels the bars of a plot with message sizes,
and `parse_message_size_arg`, which reads the argument of `--message-size`. Of the classes `\d` and
`\s` only the ASCII characters are modelled.

Main result: `parseMessageSizeArg_formatBytes_iff`. A label can be given back as an argument, for
the same size, if and only if the size is a double and a multiple of the unit that it is shown in.
-/

namespace LibFatbat

open Text Text.Regex

/-! ### `format_bytes` -/

/-- The integer nearest to `n / d`, of two the even one. -/
def roundHalfEven (n d : ℕ) : ℕ :=
  if 2 * (n % d) < d ∨ (2 * (n % d) = d ∧ n / d % 2 = 0) then n / d else n / d + 1

/-- `{scaled:.1f}`, where `scaled` is `n / d`. -/
def fixed1 (n d : ℕ) : List Char :=
  let tenths := roundHalfEven (10 * n) d
  decimal (tenths / 10) ++ ['.', Nat.digitChar (tenths % 10)]

/-- The loop over the units, where `scaled` is `size / scale`, a double. -/
def formatScaled (value size scale : ℕ) : List (List Char) → List Char
  | [] => decimal value ++ " B".toList
  | unit :: units =>
    if size < 1024 * scale ∨ units = [] then
      if unit = "B".toList then decimal (size / scale) ++ ' ' :: unit
      else if scale ∣ size then decimal (size / scale) ++ ' ' :: unit
      else fixed1 size scale ++ ' ' :: unit
    else formatScaled value size (scale * 1024) units

/-- `format_bytes`; `none` is an exception, when `float` finds the value too large. -/
def formatBytes (value : ℕ) : Option (List Char) :=
  if Double.roundNat value < 2 ^ 1024 then
    some (formatScaled value (Double.roundNat value) 1
      ["B".toList, "KiB".toList, "MiB".toList, "GiB".toList])
  else none

/-! ### `parse_message_size_arg` -/

/-- `[a-z]`. -/
def isLowerChar (c : Char) : Bool := 97 ≤ c.toNat && c.toNat ≤ 122

/-- `\s*([a-z]*)$`, what follows the digits. -/
def suffixRe : Regex := .seq (.star isPySpace) (.seq (.group "2" (.star isLowerChar)) .eos)

/-- `^(\d+)\s*([a-z]*)$`. -/
def sizeRe : Regex := .seq (.group "1" (.plus Char.isDigit)) suffixRe

/-- `multipliers`. -/
def multipliers : List (List Char × ℕ) :=
  [([], 1), ("b".toList, 1), ("k".toList, 1024), ("m".toList, 1024 ^ 2), ("g".toList, 1024 ^ 3),
    ("t".toList, 1024 ^ 4), ("ki".toList, 1024), ("kib".toList, 1024), ("mi".toList, 1024 ^ 2),
    ("mib".toList, 1024 ^ 2), ("gi".toList, 1024 ^ 3), ("gib".toList, 1024 ^ 3),
    ("ti".toList, 1024 ^ 4), ("tib".toList, 1024 ^ 4)]

/-- `strip`. -/
def strip (cs : List Char) : List Char :=
  ((cs.dropWhile isPySpace).reverse.dropWhile isPySpace).reverse

/-- `parse_message_size_arg`; `none` is an exception. -/
def parseMessageSizeArg (value : List Char) : Option ℕ := do
  let groups ← sizeRe.match? ((strip value).map Char.toLower)
  let multiplier ← multipliers.lookup (groupText groups "2")
  return digitsValue (groupText groups "1") * multiplier

/-! ### The argument that a label is -/

/-- What `[a-z]` matches is no digit. -/
theorem isLowerChar_of_isDigit {c : Char} (h : c.isDigit = true) : isLowerChar c = false := by
  rw [isDigit_iff] at h
  unfold isLowerChar
  rw [Bool.and_eq_false_iff, decide_eq_false_iff_not, decide_eq_false_iff_not]
  omega

theorem isPySpace_of_isLowerChar {c : Char} (h : isLowerChar c = true) : isPySpace c = false := by
  unfold isLowerChar at h
  rw [Bool.and_eq_true, decide_eq_true_iff, decide_eq_true_iff] at h
  unfold isPySpace
  simp
  omega

theorem ne_newline_of_isLowerChar {c : Char} (h : isLowerChar c = true) : c ≠ '\n' := by
  rintro rfl
  cases h

theorem toLower_of_isDigit {c : Char} (h : c.isDigit = true) : c.toLower = c := by
  rw [isDigit_iff] at h
  have hupper : ¬ (c.val ≥ 65 ∧ c.val ≤ 90) := by
    rw [ge_iff_le, UInt32.le_iff_toNat_le, UInt32.le_iff_toNat_le]
    have hval : c.val.toNat = c.toNat := rfl
    have h65 : (65 : UInt32).toNat = 65 := rfl
    omega
  unfold Char.toLower
  simp [hupper]

theorem map_toLower_decimal (n : ℕ) : (decimal n).map Char.toLower = decimal n := by
  conv_rhs => rw [← List.map_id (decimal n)]
  exact List.map_congr_left fun c hc => toLower_of_isDigit (isDigit_of_mem_decimal hc)

/-- After the digits, nothing but blanks and letters. -/
theorem suffixRe_rejects {c : Char} (hspace : isPySpace c = false) (hlower : isLowerChar c = false)
    (hnewline : c ≠ '\n') : suffixRe.Rejects c :=
  rejects_seq_star hspace (rejects_seq_group_star hlower (rejects_eos hnewline))

theorem suffixRe_rejects_digit {c : Char} (h : c.isDigit = true) : suffixRe.Rejects c := by
  refine suffixRe_rejects (isPySpace_of_isDigit h) (isLowerChar_of_isDigit h) ?_
  rintro rfl
  cases h

/-- Text between characters that are not blank stays as it is. -/
theorem strip_eq {cs : List Char} (hhead : ∀ c ∈ cs.head?, isPySpace c = false)
    (hlast : ∀ c ∈ cs.getLast?, isPySpace c = false) : strip cs = cs := by
  have hdrop {ds : List Char} (h : ∀ c ∈ ds.head?, isPySpace c = false) :
      ds.dropWhile isPySpace = ds := by
    cases ds with
    | nil => rfl
    | cons d ds => exact List.dropWhile_cons_of_neg (ne_true_of_eq_false (h d rfl))
  rw [strip, hdrop hhead, hdrop, List.reverse_reverse]
  rwa [List.head?_reverse]

/-- A number, and what follows it up to a character that is not blank. -/
theorem match_sizeRe (n : ℕ) {rest : List Char} (hne : rest ≠ [])
    (hlast : ∀ c ∈ rest.getLast?, isPySpace c = false)
    (hrest : NotNext Char.isDigit (rest.map Char.toLower)) :
    sizeRe.match? ((strip (decimal n ++ rest)).map Char.toLower) =
      ((captures suffixRe (rest.map Char.toLower)).map (("1", decimal n) :: ·)).head? := by
  have hdigits : ∀ c ∈ decimal n, c.isDigit = true := fun c hc => isDigit_of_mem_decimal hc
  have hstrip : strip (decimal n ++ rest) = decimal n ++ rest := by
    apply strip_eq
    · intro c hc
      rw [List.head?_append_of_ne_nil _ (decimal_ne_nil n)] at hc
      exact isPySpace_of_isDigit (hdigits c (List.mem_of_mem_head? hc))
    · rwa [List.getLast?_append_of_ne_nil _ hne]
  rw [hstrip, List.map_append, map_toLower_decimal, match?, sizeRe,
    captures_seq_group_plus hdigits (decimal_ne_nil n) hrest
      fun c hc => suffixRe_rejects_digit (hdigits c hc)]

/-- A number with a unit after a blank. -/
theorem parseMessageSizeArg_unit (n : ℕ) {unit : List Char} (hne : unit ≠ [])
    (hspace : ∀ c ∈ unit, isPySpace c = false)
    (hlower : ∀ c ∈ unit.map Char.toLower, isLowerChar c = true) :
    parseMessageSizeArg (decimal n ++ ' ' :: unit) =
      (multipliers.lookup (unit.map Char.toLower)).map (n * ·) := by
  have hlast : ∀ c ∈ (' ' :: unit).getLast?, isPySpace c = false := by
    rw [List.getLast?_cons_of_ne_nil hne]
    exact fun c hc => hspace c (List.mem_of_getLast? hc)
  have hblank : ∀ c ∈ [' '], isPySpace c = true ∧ isLowerChar c = false ∧ c ≠ '\n' := by
    intro c hc
    rw [List.eq_of_mem_singleton hc]
    decide
  -- the blank goes to `\s*`, the letters to `[a-z]*`
  have hletters : captures suffixRe ([' '] ++ unit.map Char.toLower) =
      [[("2", unit.map Char.toLower)]] := by
    rw [suffixRe, captures_seq_star (fun c hc => (hblank c hc).1)
      (fun c hc => isPySpace_of_isLowerChar (hlower c (List.mem_of_mem_head? hc)))
      fun c hc => rejects_seq_group_star (hblank c hc).2.1 (rejects_eos (hblank c hc).2.2)]
    have hend : captures (.seq (.group "2" (.star isLowerChar)) .eos)
        (unit.map Char.toLower ++ []) =
          (captures .eos []).map (("2", unit.map Char.toLower) :: ·) :=
      captures_seq_group_star hlower (by simp [NotNext])
        fun c hc => rejects_eos (ne_newline_of_isLowerChar (hlower c hc))
    rw [List.append_nil] at hend
    rw [hend]
    rfl
  have hmatch := match_sizeRe n (List.cons_ne_nil ' ' unit) hlast
    (fun c hc => by cases hc; decide)
  rw [List.map_cons] at hmatch
  unfold parseMessageSizeArg
  rw [hmatch]
  show (((captures suffixRe ([' '] ++ unit.map Char.toLower)).map
    (("1", decimal n) :: ·)).head?.bind _) = _
  rw [hletters]
  show ((multipliers.lookup (unit.map Char.toLower)).bind fun multiplier =>
    some (digitsValue (decimal n) * multiplier)) = _
  rw [digitsValue_decimal, Option.map_eq_bind]
  rfl

/-- A number with a point is no message size. -/
theorem parseMessageSizeArg_point (n : ℕ) {rest : List Char} (hne : rest ≠ [])
    (hlast : ∀ c ∈ rest.getLast?, isPySpace c = false) :
    parseMessageSizeArg (decimal n ++ '.' :: rest) = none := by
  have hmatch := match_sizeRe n (List.cons_ne_nil '.' rest)
    (by rwa [List.getLast?_cons_of_ne_nil hne]) (fun c hc => by cases hc; decide)
  have hpoint : suffixRe.Rejects '.' := suffixRe_rejects (by decide) (by decide) (by decide)
  unfold parseMessageSizeArg
  rw [hmatch, List.map_cons]
  show ((captures suffixRe ('.' :: rest.map Char.toLower)).map
    (("1", decimal n) :: ·)).head?.bind _ = _
  rw [hpoint.captures]
  rfl

/-! ### The unit of a label -/

/-- The units of `format_bytes`, each with the number of bytes that it stands for. -/
def byteUnits : List (List Char × ℕ) :=
  [("B".toList, 1), ("KiB".toList, 1024), ("MiB".toList, 1024 ^ 2), ("GiB".toList, 1024 ^ 3)]

/-- The unit that a size is shown in. -/
def byteUnit (size : ℕ) : List Char × ℕ :=
  if size < 1024 then ("B".toList, 1)
  else if size < 1024 ^ 2 then ("KiB".toList, 1024)
  else if size < 1024 ^ 3 then ("MiB".toList, 1024 ^ 2)
  else ("GiB".toList, 1024 ^ 3)

theorem byteUnit_mem (size : ℕ) : byteUnit size ∈ byteUnits := by
  unfold byteUnit byteUnits
  split
  · simp
  split
  · simp
  split <;> simp

/-- Each unit is read as the number of bytes that it stands for. -/
theorem parseMessageSizeArg_byteUnit (n : ℕ) {unit : List Char × ℕ} (h : unit ∈ byteUnits) :
    parseMessageSizeArg (decimal n ++ ' ' :: unit.1) = some (n * unit.2) := by
  have hletters : unit.1 ≠ [] ∧ unit.1.any isPySpace = false ∧
      (unit.1.map Char.toLower).all isLowerChar = true ∧
      multipliers.lookup (unit.1.map Char.toLower) = some unit.2 := by
    simp only [byteUnits, List.mem_cons, List.not_mem_nil, or_false] at h
    obtain rfl | rfl | rfl | rfl := h
    all_goals exact ⟨List.cons_ne_nil _ _, rfl, rfl, rfl⟩
  obtain ⟨hne, hspace, hlower, hlookup⟩ := hletters
  rw [List.any_eq_false] at hspace
  rw [List.all_eq_true] at hlower
  have hblank : ∀ c ∈ unit.1, isPySpace c = false :=
    fun c hc => eq_false_of_ne_true (hspace c hc)
  rw [parseMessageSizeArg_unit n hne hblank hlower, hlookup, Option.map_some]

/-- A size with its unit, which is the largest that is not too large. -/
def sizeText (size : ℕ) (unit : List Char × ℕ) : List Char :=
  if unit.2 ∣ size then decimal (size / unit.2) ++ ' ' :: unit.1
  else fixed1 size unit.2 ++ ' ' :: unit.1

/-- The loop ends at the unit of the size. -/
theorem formatScaled_eq (value size : ℕ) :
    formatScaled value size 1 ["B".toList, "KiB".toList, "MiB".toList, "GiB".toList] =
      sizeText size (byteUnit size) := by
  have hB : "KiB".toList ≠ "B".toList ∧ "MiB".toList ≠ "B".toList ∧ "GiB".toList ≠ "B".toList := by
    decide
  have hMiB : 1 * 1024 * 1024 = 1024 ^ 2 := rfl
  have hGiB : 1024 ^ 2 * 1024 = 1024 ^ 3 := rfl
  unfold byteUnit sizeText
  split
  · rename_i h
    rw [formatScaled, if_pos (Or.inl (by omega)), if_pos rfl, if_pos (one_dvd size)]
  rw [formatScaled, if_neg (by simp; omega)]
  split
  · rw [formatScaled, if_pos (Or.inl (by omega)), if_neg hB.1]
  rw [formatScaled, if_neg (by simp; omega)]
  split
  · rw [formatScaled, if_pos (Or.inl (by omega)), if_neg hB.2.1, hMiB]
  rw [formatScaled, if_neg (by simp; omega), formatScaled, if_pos (Or.inr rfl), if_neg hB.2.2,
    hMiB, hGiB]

/-- A label is read as its size if its unit divides it, and is no argument otherwise. -/
theorem parseMessageSizeArg_sizeText (size : ℕ) {unit : List Char × ℕ} (h : unit ∈ byteUnits) :
    parseMessageSizeArg (sizeText size unit) = if unit.2 ∣ size then some size else none := by
  unfold sizeText
  split
  · rename_i hdvd
    rw [parseMessageSizeArg_byteUnit _ h, Nat.div_mul_cancel hdvd]
  · -- after the point no letter or blank: no size, whatever the unit is
    have hlast : (' ' :: unit.1).getLast? = some 'B' := by
      simp only [byteUnits, List.mem_cons, List.not_mem_nil, or_false] at h
      obtain rfl | rfl | rfl | rfl := h
      all_goals rfl
    unfold fixed1
    rw [List.append_assoc]
    apply parseMessageSizeArg_point _ (List.cons_ne_nil _ _)
    show ∀ c ∈ (_ :: ' ' :: unit.1).getLast?, isPySpace c = false
    rw [List.getLast?_cons_of_ne_nil (List.cons_ne_nil _ _), hlast]
    rintro c ⟨⟩
    rfl

/-- What a label of at most 53 bits is read as is the size that it was made for. -/
theorem eq_of_parseMessageSizeArg {value size : ℕ} {label : List Char} (hvalue : value ≤ 2 ^ 53)
    (hlabel : formatBytes value = some label) (hsize : parseMessageSizeArg label = some size) :
    size = value := by
  have hdouble : Double.roundNat value = value := by
    unfold Double.roundNat
    rw [if_pos hvalue]
  unfold formatBytes at hlabel
  rw [hdouble] at hlabel
  split at hlabel
  · rw [formatScaled_eq] at hlabel
    rw [← Option.some.inj hlabel, parseMessageSizeArg_sizeText _ (byteUnit_mem value)] at hsize
    split at hsize
    · exact (Option.some.inj hsize).symm
    · cases hsize
  · cases hlabel

/-- A label can be given back as `--message-size`, for the size that it was made for, if and only
if the size is a double and a multiple of the unit that it is shown in. -/
theorem parseMessageSizeArg_formatBytes_iff (value : ℕ) :
    (formatBytes value).bind parseMessageSizeArg = some value ↔
      Double.roundNat value = value ∧ value < 2 ^ 1024 ∧ (byteUnit value).2 ∣ value := by
  unfold formatBytes
  split
  · -- a finite size has a label, which is read back only when it shows no fraction
    rename_i hfloat
    rw [Option.bind_some, formatScaled_eq, parseMessageSizeArg_sizeText _ (byteUnit_mem _)]
    constructor
    · intro h
      split at h
      · rename_i hdvd
        have hvalue := Option.some.inj h
        rw [hvalue] at hdvd hfloat
        exact ⟨hvalue, hfloat, hdvd⟩
      · cases h
    · rintro ⟨hvalue, -, hdvd⟩
      rw [hvalue, if_pos hdvd]
  · -- a size beyond the doubles has no label
    rename_i hfloat
    rw [Option.bind_none]
    constructor
    · intro h
      cases h
    · rintro ⟨hvalue, hlt, -⟩
      rw [hvalue] at hfloat
      exact absurd hlt hfloat

end LibFatbat
