import LibFatbat.Number
import LibFatbat.Text.Lines
import Mathlib.Data.Nat.Notation
import Mathlib.Tactic.Linarith

/-!
# Lists of CPUs

`compress_cpu_list`, `expand_cpu_list` and `count_cpus_in_list` of `wrapper-mpi-binding.sh`, on
lists in the format of the kernel: numbers and ranges of numbers, separated by commas. The first is
bash, whose integers have 64 bits; the others are awk, whose numbers are doubles. How `printf "%d"`
shows a double depends on the awk: here it is one that shows every integer exactly, such as mawk
1.3.4, and not an older one that stops at `2 ^ 31 - 1`.

Main results: `expandCpuList_compressCpuList` and `countCpusInList_compressCpuList`. A list of
numbers below `2 ^ 53` is read back, and its length is counted.
-/

namespace LibFatbat

open Text

/-! ### Bash -/

/-- The variables of the loop of `compress_cpu_list`. -/
structure CompressState where
  start : ℕ
  prev : ℕ
  out : List Char

/-- The number that bash computes with when a variable holds a number. -/
def bashInt (n : ℕ) : Int64 := Int64.ofNat n

/-- The end of a range: a comma if something comes before it, and the range. -/
def appendRange (out : List Char) (first last : ℕ) : List Char :=
  let out := if out.isEmpty then out else out ++ [',']
  if bashInt first = bashInt last then out ++ decimal first
  else out ++ (decimal first ++ '-' :: decimal last)

/-- The body of the loop. -/
def compressStep (s : CompressState) (cur : ℕ) : CompressState :=
  if bashInt cur = bashInt s.prev + 1 then { s with prev := cur }
  else ⟨cur, cur, appendRange s.out s.start s.prev⟩

/-- `compress_cpu_list`. -/
def compressCpuList : List ℕ → List Char
  | [] => []
  | value :: values =>
    let s := values.foldl compressStep ⟨value, value, []⟩
    appendRange s.out s.start s.prev

/-! ### Awk -/

/-- The number that awk reads, the double nearest to it. The bounds of a range are numbers in the
format of the kernel; others, which awk compares as strings, are left out. -/
def awkNumber (cs : List Char) : Option ℤ :=
  if isDigits cs then some (Double.round (digitsValue cs)) else none

/-- `for (j = first; j <= last; j++)`: the values of `j`. There are at most as many as there are
integers from `first` to `last`, unless the loop does not end. -/
def awkRange : ℕ → ℤ → ℤ → Option (List ℤ)
  | steps, j, last =>
    if last < j then some []
    else
      match steps with
      | 0 => none
      | steps + 1 => do
        let js ← awkRange steps (Double.round (j + 1)) last
        return j :: js

/-- The bounds of a range, `split($i, a, "-")`. -/
def splitRange (field : List Char) : Option (ℤ × ℤ) :=
  match field.splitOn '-' with
  | first :: last :: _ => do
    let a₁ ← awkNumber first
    let a₂ ← awkNumber last
    return (a₁, a₂)
  | _ => none

/-- The body of the loop of `expand_cpu_list`: the numbers that are printed for a field. -/
def expandField (field : List Char) : Option (List ℤ) :=
  if '-' ∈ field then do
    let (a₁, a₂) ← splitRange field
    awkRange (a₂ + 1 - a₁).toNat a₁ a₂
  else if isDigits field then some [Double.round (digitsValue field)]
  else some []

/-- The loop over the fields. -/
def expandFields : List (List Char) → Option (List ℤ)
  | [] => some []
  | field :: fields => do
    let js ← expandField field
    let rest ← expandFields fields
    return js ++ rest

/-- `expand_cpu_list`, with an awk whose `%d` shows every integer exactly: the numbers that are
printed, or `none` if it does not end. -/
def expandCpuList (cpuList : List Char) : Option (List ℤ) := expandFields (cpuList.splitOn ',')

/-- The body of the loop of `count_cpus_in_list`: `total` after it. -/
def countField (total : ℤ) (field : List Char) : Option ℤ :=
  if '-' ∈ field then do
    let (a₁, a₂) ← splitRange field
    return Double.round (total + Double.round (Double.round (a₂ - a₁) + 1))
  else if isDigits field then some (Double.round (total + 1))
  else some total

/-- The loop over the fields. -/
def countFields : ℤ → List (List Char) → Option ℤ
  | total, [] => some total
  | total, field :: fields => do
    let total ← countField total field
    countFields total fields

/-- `count_cpus_in_list`. -/
def countCpusInList (cpuList : List Char) : Option ℤ := countFields 0 (cpuList.splitOn ',')

/-! ### Ranges -/

/-- A range of numbers. -/
structure CpuRange where
  first : ℕ
  last : ℕ
  ordered : first ≤ last

namespace CpuRange

/-- The numbers of a range. -/
def cpus (r : CpuRange) : List ℕ := List.range' r.first (r.last + 1 - r.first)

/-- A range as it is written. -/
def text (r : CpuRange) : List Char :=
  if r.first = r.last then decimal r.first else decimal r.first ++ '-' :: decimal r.last

/-- Ranges as they are written. -/
def list (rs : List CpuRange) : List Char := [','].intercalate (rs.map text)

theorem last_mem_cpus (r : CpuRange) : r.last ∈ r.cpus := by
  have := r.ordered
  rw [cpus, List.mem_range'_1]
  omega

/-- A range that is one longer. -/
def grow (r : CpuRange) : CpuRange := ⟨r.first, r.last + 1, Nat.le_succ_of_le r.ordered⟩

theorem cpus_grow (r : CpuRange) : r.grow.cpus = r.cpus ++ [r.last + 1] := by
  have := r.ordered
  have hlength : r.last + 1 + 1 - r.first = r.last + 1 - r.first + 1 := by omega
  have hend : r.first + (r.last + 1 - r.first) = r.last + 1 := by omega
  unfold cpus grow
  rw [hlength, List.range'_1_concat, hend]

/-- A range of one number. -/
def single (n : ℕ) : CpuRange := ⟨n, n, le_rfl⟩

theorem cpus_single (n : ℕ) : (single n).cpus = [n] := by
  unfold cpus single
  rw [Nat.add_sub_cancel_left]
  rfl

theorem text_ne_nil (r : CpuRange) : r.text ≠ [] := by
  unfold text
  split
  · exact decimal_ne_nil r.first
  · simp

/-- A range has no comma. -/
theorem comma_not_mem_text (r : CpuRange) : ',' ∉ r.text := by
  unfold text
  split
  · exact not_mem_decimal (by decide) r.first
  · rw [List.mem_append, List.mem_cons, not_or, not_or]
    exact ⟨not_mem_decimal (by decide) r.first, by decide, not_mem_decimal (by decide) r.last⟩

theorem list_eq_nil_iff (rs : List CpuRange) : list rs = [] ↔ rs = [] := by
  constructor
  · intro h
    cases rs with
    | nil => rfl
    | cons r rs =>
      cases rs with
      | nil => exact absurd (by simpa [list] using h) r.text_ne_nil
      | cons r' rs => simp [list, List.intercalate_cons_cons] at h
  · rintro rfl
    rfl

/-- Ranges with one more at the end. -/
theorem list_append_singleton (rs : List CpuRange) (r : CpuRange) :
    list (rs ++ [r]) = (if (list rs).isEmpty then list rs else list rs ++ [',']) ++ r.text := by
  induction rs with
  | nil => simp [list]
  | cons r₁ rs ih =>
    have hne : (list (r₁ :: rs)).isEmpty = false := by
      rw [List.isEmpty_eq_false_iff, Ne, list_eq_nil_iff]
      exact List.cons_ne_nil r₁ rs
    rw [hne]
    cases rs with
    | nil => simp [list, List.intercalate_cons_cons]
    | cons r₂ rs =>
      have htail : (list (r₂ :: rs)).isEmpty = false := by
        rw [List.isEmpty_eq_false_iff, Ne, list_eq_nil_iff]
        exact List.cons_ne_nil r₂ rs
      rw [htail] at ih
      unfold list at ih ⊢
      simp only [List.cons_append, List.map_cons, List.intercalate_cons_cons] at ih ⊢
      rw [ih]
      simp

end CpuRange

/-! ### What is written -/

/-- Numbers below `2 ^ 63` are what bash computes with. -/
theorem bashInt_inj {m n : ℕ} (hm : m < 2 ^ 63) (hn : n < 2 ^ 63) :
    bashInt m = bashInt n ↔ m = n := by
  rw [← Int64.toInt_inj, bashInt, bashInt, Int64.toInt_ofNat_of_lt hm, Int64.toInt_ofNat_of_lt hn]
  exact Int.natCast_inj

theorem bashInt_succ (n : ℕ) : bashInt n + 1 = bashInt (n + 1) :=
  (Int64.ofNat_add n 1).symm

/-- What is appended is a range. -/
theorem appendRange_list {r : CpuRange} (hsmall : r.last < 2 ^ 63) (rs : List CpuRange) :
    appendRange (CpuRange.list rs) r.first r.last = CpuRange.list (rs ++ [r]) := by
  have hfirst : r.first < 2 ^ 63 := r.ordered.trans_lt hsmall
  rw [CpuRange.list_append_singleton]
  unfold appendRange CpuRange.text
  simp only [bashInt_inj hfirst hsmall]
  split
  · rfl
  · rfl

/-- What the loop has made of the values it has seen: ranges that are written, and one that is
not. -/
def CompressState.Holds (s : CompressState) (seen : List ℕ) : Prop :=
  ∃ (rs : List CpuRange) (r : CpuRange), s.out = CpuRange.list rs ∧ s.start = r.first ∧
    s.prev = r.last ∧ rs.flatMap CpuRange.cpus ++ r.cpus = seen

/-- The loop goes on by one value: the last range grows, or it is written and another begins. -/
theorem CompressState.Holds.step {s : CompressState} {seen : List ℕ} {cur : ℕ} (h : s.Holds seen)
    (hseen : ∀ n ∈ seen, n < 2 ^ 53) (hcur : cur < 2 ^ 53) :
    (compressStep s cur).Holds (seen ++ [cur]) := by
  obtain ⟨rs, r, hout, hstart, hprev, rfl⟩ := h
  have hlast : r.last < 2 ^ 53 :=
    hseen r.last (List.mem_append_right _ r.last_mem_cpus)
  have hnext_iff : bashInt cur = bashInt s.prev + 1 ↔ cur = r.last + 1 := by
    rw [hprev, bashInt_succ]
    exact bashInt_inj (by omega) (by omega)
  unfold compressStep
  by_cases hnext : cur = r.last + 1
  · -- nothing is written
    rw [if_pos (hnext_iff.mpr hnext)]
    refine ⟨rs, r.grow, hout, hstart, hnext, ?_⟩
    rw [CpuRange.cpus_grow, List.append_assoc, hnext]
  · -- the last range is written as it is
    rw [if_neg (mt hnext_iff.mp hnext)]
    refine ⟨rs ++ [r], .single cur, ?_, rfl, rfl, ?_⟩
    · rw [hout, hstart, hprev]
      exact appendRange_list (by omega) rs
    · rw [CpuRange.cpus_single, List.flatMap_append, List.flatMap_singleton]

/-- What the whole loop makes of the values. -/
theorem CompressState.Holds.foldl {s : CompressState} {seen values : List ℕ} (h : s.Holds seen)
    (hseen : ∀ n ∈ seen, n < 2 ^ 53) (hvalues : ∀ n ∈ values, n < 2 ^ 53) :
    (values.foldl compressStep s).Holds (seen ++ values) := by
  induction values generalizing s seen with
  | nil => rwa [List.append_nil]
  | cons cur values ih =>
    obtain ⟨hcur, hvalues⟩ := List.forall_mem_cons.mp hvalues
    have hseen' : ∀ n ∈ seen ++ [cur], n < 2 ^ 53 := by
      rw [List.forall_mem_append]
      exact ⟨hseen, List.forall_mem_singleton.mpr hcur⟩
    have hrest := ih (h.step hseen hcur) hseen' hvalues
    rwa [List.append_assoc, List.singleton_append] at hrest

/-- What is written are ranges, whose numbers are the values in order. -/
theorem exists_ranges {values : List ℕ} (hsmall : ∀ n ∈ values, n < 2 ^ 53) :
    ∃ rs, compressCpuList values = CpuRange.list rs ∧ rs.flatMap CpuRange.cpus = values := by
  cases values with
  | nil => exact ⟨[], rfl, rfl⟩
  | cons value values =>
    obtain ⟨hvalue, hvalues⟩ := List.forall_mem_cons.mp hsmall
    -- before the loop, the first value is the range that is not written
    have hbegin : CompressState.Holds ⟨value, value, []⟩ [value] :=
      ⟨[], .single value, rfl, rfl, rfl, CpuRange.cpus_single value⟩
    obtain ⟨rs, r, hout, hstart, hprev, hcpus⟩ :=
      hbegin.foldl (List.forall_mem_singleton.mpr hvalue) hvalues
    rw [List.singleton_append] at hcpus
    -- the range that is left is written after the loop
    refine ⟨rs ++ [r], ?_, ?_⟩
    · have hlast : r.last ∈ value :: values := by
        rw [← hcpus]
        exact List.mem_append_right _ r.last_mem_cpus
      have := hsmall r.last hlast
      unfold compressCpuList
      simp only [hout, hstart, hprev]
      exact appendRange_list (by omega) rs
    · rw [List.flatMap_append, List.flatMap_singleton, hcpus]

/-! ### How it is read -/

/-- The fields of what is written are the ranges. -/
theorem splitOn_list {rs : List CpuRange} (hrs : rs ≠ []) :
    (CpuRange.list rs).splitOn ',' = rs.map CpuRange.text := by
  refine List.splitOn_intercalate ',' ?_ ?_
  · rw [List.forall_mem_map]
    exact fun r _ => r.comma_not_mem_text
  · rwa [Ne, List.map_eq_nil_iff]

theorem awkNumber_decimal {n : ℕ} (hn : n ≤ 2 ^ 53) : awkNumber (decimal n) = some (n : ℤ) := by
  rw [awkNumber, if_pos (isDigits_decimal n), digitsValue_decimal, Double.round_natCast hn]

/-- The two bounds of a range that is written as one. -/
theorem splitRange_text {a b : ℕ} (ha : a < 2 ^ 53) (hb : b < 2 ^ 53) :
    splitRange (decimal a ++ '-' :: decimal b) = some ((a : ℤ), (b : ℤ)) := by
  unfold splitRange
  rw [List.splitOn_append_cons_self_of_not_mem (not_mem_decimal (by decide) a),
    List.splitOn_eq_singleton (not_mem_decimal (by decide) b)]
  simp only [awkNumber_decimal ha.le, awkNumber_decimal hb.le]
  rfl

/-- The loop from one number to another. -/
theorem awkRange_eq (a count : ℕ) (h : a + count ≤ 2 ^ 53) :
    awkRange count a (a + count - 1) = some ((List.range' a count).map Nat.cast) := by
  induction count generalizing a with
  | zero =>
    unfold awkRange
    rw [if_pos (by omega)]
    rfl
  | succ count ih =>
    unfold awkRange
    have hnext : Double.round ((a : ℤ) + 1) = ((a + 1 : ℕ) : ℤ) := by
      rw [← Nat.cast_succ]
      exact Double.round_natCast (by omega)
    have hlast : (a : ℤ) + ((count + 1 : ℕ) : ℤ) - 1 = ((a + 1 : ℕ) : ℤ) + count - 1 := by omega
    -- the next value is not rounded, and the loop from it is one shorter
    rw [if_neg (by omega), hnext, hlast]
    simp only [ih (a + 1) (by omega)]
    rfl

/-- A range is read as its numbers. -/
theorem expandField_text {r : CpuRange} (hsmall : r.last < 2 ^ 53) :
    expandField r.text = some (r.cpus.map Nat.cast) := by
  have hordered := r.ordered
  have hfirst : r.first < 2 ^ 53 := by omega
  unfold expandField CpuRange.text CpuRange.cpus
  by_cases hsingle : r.first = r.last
  · rw [if_pos hsingle, if_neg (not_mem_decimal (by decide) _), if_pos (isDigits_decimal _),
      digitsValue_decimal, Double.round_natCast hfirst.le, ← hsingle, Nat.add_sub_cancel_left]
    rfl
  · have hcount : ((r.last : ℤ) + 1 - r.first).toNat = r.last + 1 - r.first := by omega
    have hlast : (r.last : ℤ) = r.first + ((r.last + 1 - r.first : ℕ) : ℤ) - 1 := by omega
    rw [if_neg hsingle, if_pos (by simp), splitRange_text hfirst hsmall]
    show awkRange ((r.last : ℤ) + 1 - r.first).toNat r.first r.last = _
    rw [hcount, hlast]
    exact awkRange_eq _ _ (by omega)

theorem expandFields_text {rs : List CpuRange} (hsmall : ∀ r ∈ rs, r.last < 2 ^ 53) :
    expandFields (rs.map CpuRange.text) =
      some ((rs.flatMap CpuRange.cpus).map Nat.cast) := by
  induction rs with
  | nil => rfl
  | cons r rs ih =>
    obtain ⟨hr, hrs⟩ := List.forall_mem_cons.mp hsmall
    rw [List.map_cons, expandFields, expandField_text hr, ih hrs, List.flatMap_cons,
      List.map_append]
    rfl

/-- A range is counted as its numbers. -/
theorem countField_text {r : CpuRange} {total : ℕ} (hsmall : r.last < 2 ^ 53)
    (htotal : total + r.cpus.length ≤ 2 ^ 53) :
    countField total r.text = some ((total + r.cpus.length : ℕ) : ℤ) := by
  have hordered := r.ordered
  have hfirst : r.first < 2 ^ 53 := by omega
  have hlength : r.cpus.length = r.last + 1 - r.first := List.length_range'
  rw [hlength] at htotal ⊢
  unfold countField CpuRange.text
  by_cases hsingle : r.first = r.last
  · have hone : r.last + 1 - r.first = 1 := by omega
    rw [hone] at htotal ⊢
    rw [if_pos hsingle, if_neg (not_mem_decimal (by decide) _), if_pos (isDigits_decimal _),
      ← Nat.cast_succ, Double.round_natCast htotal]
  · rw [if_neg hsingle, if_pos (by simp), splitRange_text hfirst hsmall]
    show some (Double.round (total + Double.round (Double.round ((r.last : ℤ) - r.first) + 1))) = _
    -- none of the three results is rounded
    have hdifference : Double.round ((r.last : ℤ) - r.first) = r.last - r.first :=
      Double.round_of_natAbs_le (by omega)
    have hcount : Double.round ((r.last : ℤ) - r.first + 1) = r.last - r.first + 1 :=
      Double.round_of_natAbs_le (by omega)
    rw [hdifference, hcount, Double.round_of_natAbs_le (by omega)]
    exact congrArg some (by omega)

theorem countFields_text {rs : List CpuRange} {total : ℕ} (hsmall : ∀ r ∈ rs, r.last < 2 ^ 53)
    (htotal : total + (rs.flatMap CpuRange.cpus).length ≤ 2 ^ 53) :
    countFields total (rs.map CpuRange.text) =
      some ((total + (rs.flatMap CpuRange.cpus).length : ℕ) : ℤ) := by
  induction rs generalizing total with
  | nil => rfl
  | cons r rs ih =>
    obtain ⟨hr, hrs⟩ := List.forall_mem_cons.mp hsmall
    rw [List.flatMap_cons, List.length_append, ← Nat.add_assoc] at htotal ⊢
    rw [List.map_cons, countFields, countField_text hr (by omega)]
    exact ih hrs htotal

/-! ### Round trips -/

/-- The bounds of ranges are among their numbers. -/
theorem last_lt_of_cpus {rs : List CpuRange} {values : List ℕ}
    (hcpus : rs.flatMap CpuRange.cpus = values) (hsmall : ∀ n ∈ values, n < 2 ^ 53) :
    ∀ r ∈ rs, r.last < 2 ^ 53 := by
  intro r hr
  refine hsmall r.last ?_
  rw [← hcpus]
  exact List.mem_flatMap.mpr ⟨r, hr, r.last_mem_cpus⟩

/-- Numbers below `2 ^ 53` are read back. -/
theorem expandCpuList_compressCpuList {values : List ℕ} (hsmall : ∀ n ∈ values, n < 2 ^ 53) :
    expandCpuList (compressCpuList values) = some (values.map Nat.cast) := by
  obtain ⟨rs, htext, hcpus⟩ := exists_ranges hsmall
  rw [htext, expandCpuList]
  cases rs with
  | nil =>
    -- the empty text has one field, which is skipped
    obtain rfl := hcpus
    rfl
  | cons r rs =>
    rw [splitOn_list (List.cons_ne_nil r rs), expandFields_text (last_lt_of_cpus hcpus hsmall),
      hcpus]

/-- Up to `2 ^ 53` numbers below `2 ^ 53` are counted. -/
theorem countCpusInList_compressCpuList {values : List ℕ} (hsmall : ∀ n ∈ values, n < 2 ^ 53)
    (hlength : values.length ≤ 2 ^ 53) :
    countCpusInList (compressCpuList values) = some (values.length : ℤ) := by
  obtain ⟨rs, htext, hcpus⟩ := exists_ranges hsmall
  rw [htext, countCpusInList]
  cases rs with
  | nil =>
    obtain rfl := hcpus
    rfl
  | cons r rs =>
    rw [← hcpus] at hlength
    have hcount := countFields_text (last_lt_of_cpus hcpus hsmall)
      (show 0 + _ ≤ 2 ^ 53 by rwa [Nat.zero_add])
    rw [Nat.zero_add, hcpus] at hcount
    rw [splitOn_list (List.cons_ne_nil r rs)]
    exact hcount

example : compressCpuList [0, 1, 2, 5, 8, 9] = "0-2,5,8-9".toList := by decide

end LibFatbat
