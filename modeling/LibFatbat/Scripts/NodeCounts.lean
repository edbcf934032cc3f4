import LibFatbat.Scripts.CpuList
import Mathlib.Data.Nat.Log

/-!
# The numbers of nodes of a sweep

`gen-rdma-bench-sbatch.sh` writes a job script for each of the numbers 1, 2, 4, ... of nodes up to
`--max-nodes`, and for that number itself. What it is given is text, which bash takes for a constant
of 64 bits wherever it computes with it.

Main result: `nodeCounts_decimal_iff`. The scripts are written for the numbers that the usage text
promises, in increasing order, if and only if the largest is at least 1 and below `2 ^ 62`.
-/

namespace LibFatbat

open Text

/-! ### The loop -/

/-- The constant that digits are for bash: in base 8 after a zero, where 8 and 9 are an error. -/
def bashConstant : List Char → Option Int64
  | '0' :: cs =>
    if cs.all fun c => decide (c.toNat < 56) then some (.ofNat (Nat.ofDigitChars 8 cs 0)) else none
  | cs => some (bashInt (digitsValue cs))

/-- A number as bash expands it. -/
def bashText (n : Int64) : List Char :=
  if n < 0 then '-' :: decimal n.toInt.natAbs else decimal n.toInt.natAbs

/-- How the generator stops early. -/
inductive GeneratorError
  /-- `--max-nodes must be an integer >= 1.` -/
  | maxNodes
  /-- There is no last element of an empty array. -/
  | badSubscript
  deriving DecidableEq

/-- `[[ "$MAX_NODES" -lt 1 ]]`; a test that ends in an error is false. -/
def maxNodesLow (maxNodes : List Char) : Bool :=
  match bashConstant maxNodes with
  | some m => decide (m < 1)
  | none => false

/-- `[[ "$n" -le "$MAX_NODES" ]]`. -/
def goesOn (maxNodes : List Char) (n : Int64) : Bool :=
  match bashConstant maxNodes with
  | some m => decide (n ≤ m)
  | none => false

/-- `[[ "${node_counts[-1]}" -ne "$MAX_NODES" ]]`. -/
def lastDiffers (maxNodes : List Char) (last : Int64) : Bool :=
  match bashConstant maxNodes with
  | some m => decide (last ≠ m)
  | none => false

/-- The loop that doubles `n`; `none` if it has not ended after so many steps. -/
def nodeCountsLoop (maxNodes : List Char) : ℕ → Int64 → List Int64 → Option (List Int64)
  | 0, _, _ => none
  | steps + 1, n, counts =>
    if goesOn maxNodes n then nodeCountsLoop maxNodes steps (n * 2) (counts ++ [n])
    else some counts

/-- What comes after the loop: the last number is compared with `MAX_NODES`. -/
def addMaxNodes (maxNodes : List Char) (counts : List Int64) :
    Except GeneratorError (List (List Char)) :=
  match counts.getLast? with
  | none => .error .badSubscript
  | some last =>
    .ok (counts.map bashText ++ if lastDiffers maxNodes last then [maxNodes] else [])

/-- `node_counts`, for the `MAX_NODES` that was given; `none` if the loop has not ended. -/
def nodeCounts (steps : ℕ) (maxNodes : List Char) :
    Option (Except GeneratorError (List (List Char))) :=
  if !isDigits maxNodes || maxNodesLow maxNodes then some (.error .maxNodes)
  else (nodeCountsLoop maxNodes steps 1 []).map (addMaxNodes maxNodes)

/-! ### What is promised -/

/-- The powers of two up to `m`. -/
def powersUpTo (m : ℕ) : List ℕ := (List.range (Nat.log 2 m + 1)).map (2 ^ ·)

/-- The numbers 1, 2, 4, ... up to `m`, and `m`. -/
def sweep (m : ℕ) : List ℕ := powersUpTo m ++ if 2 ^ Nat.log 2 m ≠ m then [m] else []

section Promised

variable {m n : ℕ}

theorem mem_powersUpTo (hm : 1 ≤ m) : n ∈ powersUpTo m ↔ ∃ k, n = 2 ^ k ∧ n ≤ m := by
  unfold powersUpTo
  rw [List.mem_map]
  constructor
  · rintro ⟨k, hk, rfl⟩
    rw [List.mem_range, Nat.lt_succ_iff] at hk
    exact ⟨k, rfl, Nat.pow_le_of_le_log (by omega) hk⟩
  · rintro ⟨k, rfl, hle⟩
    refine ⟨k, ?_, rfl⟩
    rw [List.mem_range, Nat.lt_succ_iff]
    exact Nat.le_log_of_pow_le Nat.one_lt_two hle

theorem mem_sweep (hm : 1 ≤ m) : n ∈ sweep m ↔ n = m ∨ ∃ k, n = 2 ^ k ∧ n ≤ m := by
  unfold sweep
  rw [List.mem_append, mem_powersUpTo hm, or_comm]
  by_cases hlast : 2 ^ Nat.log 2 m = m
  · -- the largest is the last power
    rw [if_neg (not_not.mpr hlast)]
    constructor
    · rintro (hnil | hpower)
      · exact absurd hnil List.not_mem_nil
      · exact .inr hpower
    · rintro (rfl | hpower)
      · exact .inr ⟨_, hlast.symm, le_rfl⟩
      · exact .inr hpower
  · rw [if_pos hlast, List.mem_singleton]

theorem pairwise_powersUpTo (m : ℕ) : (powersUpTo m).Pairwise (· < ·) := by
  unfold powersUpTo
  rw [List.pairwise_map]
  exact List.pairwise_lt_range.imp fun hlt => Nat.pow_lt_pow_right Nat.one_lt_two hlt

theorem pairwise_sweep (hm : 1 ≤ m) : (sweep m).Pairwise (· < ·) := by
  unfold sweep
  split
  · rename_i hlast
    refine List.pairwise_append.mpr ⟨pairwise_powersUpTo m, List.pairwise_singleton _ _, ?_⟩
    intro a ha b hb
    obtain rfl := List.mem_singleton.mp hb
    obtain ⟨k, rfl, hle⟩ := (mem_powersUpTo hm).mp ha
    refine lt_of_le_of_ne hle fun heq => hlast ?_
    -- a power of two is the power of its own logarithm
    rw [← heq, Nat.log_pow Nat.one_lt_two]
  · rw [List.append_nil]
    exact pairwise_powersUpTo m

end Promised

/-! ### Constants -/

theorem decimal_head (n : ℕ) (hn : 1 ≤ n) : (decimal n).head? ≠ some '0' := by
  induction n using Nat.strong_induction_on with
  | h n ih =>
    unfold decimal at ih ⊢
    rw [Nat.toDigits_eq_if (by decide)]
    split
    · rename_i hlt
      interval_cases n <;> decide
    · have hhead := ih (n / 10) (by omega) (by omega)
      rw [List.head?_append_of_ne_nil _ Nat.toDigits_ne_nil]
      exact hhead

/-- A number without a leading zero is read in base 10, in 64 bits. -/
theorem bashConstant_decimal {n : ℕ} (hn : 1 ≤ n) :
    bashConstant (decimal n) = some (bashInt n) := by
  unfold bashConstant
  split
  · rename_i cs heq
    have hhead := decimal_head n hn
    rw [heq] at hhead
    exact absurd rfl hhead
  · rw [digitsValue_decimal]

/-! ### The loop, in 64 bits -/

theorem toInt_bashInt {n : ℕ} (hn : n < 2 ^ 63) : (bashInt n).toInt = n :=
  Int64.toInt_ofNat_of_lt hn

theorem bashInt_two_pow_succ (k : ℕ) : bashInt (2 ^ k) * 2 = bashInt (2 ^ (k + 1)) := by
  rw [pow_succ]
  exact (Int64.ofNat_mul (2 ^ k) 2).symm

/-- Beyond 64 bits nothing is left. -/
theorem bashInt_two_pow_of_le {k : ℕ} (hk : 64 ≤ k) : bashInt (2 ^ k) = 0 := by
  obtain ⟨j, rfl⟩ := Nat.exists_eq_add_of_le hk
  have hzero : Int64.ofNat (2 ^ 64) = 0 := by decide
  rw [bashInt, pow_add, Int64.ofNat_mul, hzero, Int64.zero_mul]

section Loop

variable {maxNodes : List Char} {m k steps : ℕ} {n v : Int64} {counts : List Int64}

theorem goesOn_iff (hm : m < 2 ^ 63) (hmax : bashConstant maxNodes = some (bashInt m))
    (hk : k ≤ 62) : goesOn maxNodes (bashInt (2 ^ k)) = true ↔ 2 ^ k ≤ m := by
  have hpow : 2 ^ k < 2 ^ 63 := Nat.pow_lt_pow_right Nat.one_lt_two (by omega)
  unfold goesOn
  simp only [hmax]
  rw [decide_eq_true_iff, Int64.le_iff_toInt_le, toInt_bashInt hpow, toInt_bashInt hm, Nat.cast_le]

/-- The loop goes through the powers that are left, and ends. -/
theorem nodeCountsLoop_powers (hpos : 1 ≤ m) (hm : m < 2 ^ 62)
    (hmax : bashConstant maxNodes = some (bashInt m)) (rest : ℕ) :
    ∀ k counts, k + rest = Nat.log 2 m + 1 →
      nodeCountsLoop maxNodes (rest + 1) (bashInt (2 ^ k)) counts =
        some (counts ++ (List.range' k rest).map fun j => bashInt (2 ^ j)) := by
  have hlog : Nat.log 2 m < 62 := Nat.log_lt_of_lt_pow (by omega) hm
  have hm63 : m < 2 ^ 63 := hm.trans (by decide)
  induction rest with
  | zero =>
    intro k counts hk
    have hend : ¬ 2 ^ k ≤ m := by
      rw [not_le, show k = Nat.log 2 m + 1 from hk]
      exact Nat.lt_pow_succ_log_self Nat.one_lt_two m
    rw [← goesOn_iff hm63 hmax (by omega)] at hend
    rw [nodeCountsLoop, if_neg hend]
    simp
  | succ rest ih =>
    intro k counts hk
    have hgoes : 2 ^ k ≤ m := Nat.pow_le_of_le_log (by omega) (by omega)
    rw [← goesOn_iff hm63 hmax (by omega)] at hgoes
    rw [nodeCountsLoop, if_pos hgoes, bashInt_two_pow_succ, ih (k + 1) _ (by omega)]
    simp [List.range'_succ]

/-- A loop that has ended is not changed by more steps. -/
theorem nodeCountsLoop_add {result : List Int64}
    (h : nodeCountsLoop maxNodes steps n counts = some result) (more : ℕ) :
    nodeCountsLoop maxNodes (steps + more) n counts = some result := by
  induction steps generalizing n counts with
  | zero => cases h
  | succ steps ih =>
    rw [Nat.succ_add]
    rw [nodeCountsLoop] at h ⊢
    split
    · rename_i hgoes
      rw [if_pos hgoes] at h
      exact ih h
    · rename_i hends
      rwa [if_neg hends] at h

/-- After any number of steps that is enough, the loop has gone through the powers. -/
theorem nodeCountsLoop_eq (hpos : 1 ≤ m) (hm : m < 2 ^ 62)
    (hmax : bashConstant maxNodes = some (bashInt m))
    (h : nodeCountsLoop maxNodes steps 1 [] = some counts) :
    counts = (powersUpTo m).map bashInt := by
  have hpowers := nodeCountsLoop_powers hpos hm hmax (Nat.log 2 m + 1) 0 [] (Nat.zero_add _)
  have hmore := nodeCountsLoop_add hpowers steps
  rw [Nat.add_comm] at hmore
  have hboth := (nodeCountsLoop_add h _).symm.trans hmore
  rw [Option.some.inj hboth, powersUpTo, List.map_map, List.range_eq_range']
  rfl

/-- From `2 ^ 62` on the loop never ends: after its largest number comes a negative one, and then
zeros. -/
theorem nodeCountsLoop_endless (hmax : bashConstant maxNodes = some v) (hv : 2 ^ 62 ≤ v.toInt) :
    ∀ k counts, nodeCountsLoop maxNodes steps (bashInt (2 ^ k)) counts = none := by
  have hgoes : ∀ k, goesOn maxNodes (bashInt (2 ^ k)) = true := by
    intro k
    have hsmall : (bashInt (2 ^ k)).toInt ≤ 2 ^ 62 := by
      rcases Nat.lt_or_ge k 63 with hk | hk
      · rw [toInt_bashInt (Nat.pow_lt_pow_right Nat.one_lt_two hk)]
        exact_mod_cast Nat.pow_le_pow_right Nat.two_pos (by omega)
      rcases hk.eq_or_lt with rfl | hk
      · decide
      · rw [bashInt_two_pow_of_le hk]
        decide
    unfold goesOn
    simp only [hmax]
    rw [decide_eq_true_iff, Int64.le_iff_toInt_le]
    omega
  induction steps with
  | zero => exact fun _ _ => rfl
  | succ steps ih =>
    intro k counts
    rw [nodeCountsLoop, if_pos (hgoes k), bashInt_two_pow_succ]
    exact ih (k + 1) _

end Loop

/-! ### The numbers that scripts are written for -/

section Sweep

variable {maxNodes : List Char} {texts : List (List Char)} {m steps : ℕ}

theorem bashText_bashInt {n : ℕ} (hn : n < 2 ^ 63) : bashText (bashInt n) = decimal n := by
  have hzero : ¬ bashInt n < 0 := by
    rw [Int64.lt_iff_toInt_lt, toInt_bashInt hn, not_lt]
    exact Int.natCast_nonneg n
  rw [bashText, if_neg hzero, toInt_bashInt hn, Int.natAbs_natCast]

theorem map_bashText_powersUpTo (hpos : 1 ≤ m) (hm : m < 2 ^ 62) :
    ((powersUpTo m).map bashInt).map bashText = (powersUpTo m).map decimal := by
  rw [List.map_map]
  refine List.map_congr_left fun n hn => ?_
  obtain ⟨k, rfl, hle⟩ := (mem_powersUpTo hpos).mp hn
  exact bashText_bashInt (hle.trans_lt (hm.trans (by decide)))

theorem lastDiffers_eq (hpos : 1 ≤ m) (hm : m < 2 ^ 62)
    (hmax : bashConstant maxNodes = some (bashInt m)) :
    lastDiffers maxNodes (bashInt (2 ^ Nat.log 2 m)) = decide (2 ^ Nat.log 2 m ≠ m) := by
  have hm63 : m < 2 ^ 63 := hm.trans (by decide)
  have hpow : 2 ^ Nat.log 2 m ≤ m := Nat.pow_log_le_self 2 (by omega)
  unfold lastDiffers
  simp only [hmax, ne_eq, bashInt_inj (hpow.trans_lt hm63) hm63]

/-- After the powers up to it comes the number itself, as it was given. -/
theorem addMaxNodes_powersUpTo (hpos : 1 ≤ m) (hm : m < 2 ^ 62)
    (hmax : bashConstant maxNodes = some (bashInt m)) :
    addMaxNodes maxNodes ((powersUpTo m).map bashInt) =
      .ok ((powersUpTo m).map decimal ++ if 2 ^ Nat.log 2 m ≠ m then [maxNodes] else []) := by
  have hlast : ((powersUpTo m).map bashInt).getLast? = some (bashInt (2 ^ Nat.log 2 m)) := by
    rw [powersUpTo, List.range_succ, List.map_append, List.map_append]
    exact List.getLast?_concat
  unfold addMaxNodes
  simp only [hlast, map_bashText_powersUpTo hpos hm, lastDiffers_eq hpos hm hmax,
    decide_eq_true_iff]

/-- A number from 1 to `2 ^ 62 - 1`, however it is written, gets scripts. -/
theorem exists_nodeCounts (hdigits : isDigits maxNodes = true) (hpos : 1 ≤ m) (hm : m < 2 ^ 62)
    (hmax : bashConstant maxNodes = some (bashInt m)) :
    ∃ steps, nodeCounts steps maxNodes = some (.ok
      ((powersUpTo m).map decimal ++ if 2 ^ Nat.log 2 m ≠ m then [maxNodes] else [])) := by
  have hlow : maxNodesLow maxNodes = false := by
    have hone : Int64.toInt 1 = 1 := by decide
    unfold maxNodesLow
    simp only [hmax]
    rw [decide_eq_false_iff_not, Int64.lt_iff_toInt_lt, toInt_bashInt (hm.trans (by decide)), hone]
    omega
  have hloop := nodeCountsLoop_powers hpos hm hmax (Nat.log 2 m + 1) 0 [] (Nat.zero_add _)
  have hcounts := nodeCountsLoop_eq hpos hm hmax hloop
  refine ⟨Nat.log 2 m + 1 + 1, ?_⟩
  rw [hcounts] at hloop
  rw [nodeCounts, hdigits, hlow]
  show (nodeCountsLoop maxNodes _ (bashInt (2 ^ 0)) []).map _ = _
  rw [hloop]
  exact congrArg some (addMaxNodes_powersUpTo hpos hm hmax)

/-- Nothing but a number from 1 to `2 ^ 62 - 1` gets scripts, and it gets these. -/
theorem nodeCounts_eq_ok (h : nodeCounts steps maxNodes = some (.ok texts)) :
    ∃ m, bashConstant maxNodes = some (bashInt m) ∧ 1 ≤ m ∧ m < 2 ^ 62 ∧
      texts = (powersUpTo m).map decimal ++ if 2 ^ Nat.log 2 m ≠ m then [maxNodes] else [] := by
  unfold nodeCounts at h
  split at h
  · cases h
  rename_i hcheck
  rw [Bool.not_eq_true, Bool.or_eq_false_iff] at hcheck
  obtain ⟨counts, hloop, hadd⟩ := Option.map_eq_some_iff.mp h
  cases hv : bashConstant maxNodes with
  | none =>
    -- the loop ends at once, and there is no last number
    cases steps with
    | zero => cases hloop
    | succ steps =>
      have hends : goesOn maxNodes 1 = false := by
        unfold goesOn
        simp only [hv]
      rw [nodeCountsLoop, hends] at hloop
      obtain rfl := Option.some.inj hloop
      cases hadd
  | some v =>
    have hpos : 1 ≤ v.toInt := by
      have hlow := hcheck.2
      unfold maxNodesLow at hlow
      simp only [hv] at hlow
      rw [decide_eq_false_iff_not, Int64.lt_iff_toInt_lt, not_lt] at hlow
      exact hlow
    rcases le_or_gt (2 ^ 62) v.toInt with hlarge | hlt
    · have hnone : nodeCountsLoop maxNodes steps 1 [] = none :=
        nodeCountsLoop_endless hv hlarge 0 []
      rw [hnone] at hloop
      cases hloop
    · obtain ⟨m, hm⟩ := Int.eq_ofNat_of_zero_le (show 0 ≤ v.toInt by omega)
      have hvm : v = bashInt m := by
        rw [bashInt, ← Int64.ofInt_eq_ofNat, ← Int64.ofInt_toInt v, hm]
      rw [hm] at hpos hlt
      have hpos' : 1 ≤ m := by omega
      have hlt' : m < 2 ^ 62 := by omega
      rw [hvm] at hv
      rw [nodeCountsLoop_eq hpos' hlt' hv hloop, addMaxNodes_powersUpTo hpos' hlt' hv] at hadd
      exact ⟨m, congrArg some hvm, hpos', hlt', (Except.ok.inj hadd).symm⟩

theorem decimal_injective : Function.Injective decimal := fun m n h => by
  rw [← digitsValue_decimal m, h, digitsValue_decimal]

theorem map_decimal_sweep (m : ℕ) : (sweep m).map decimal =
    (powersUpTo m).map decimal ++ if 2 ^ Nat.log 2 m ≠ m then [decimal m] else [] := by
  rw [sweep, List.map_append]
  split
  · rfl
  · rfl

/-- Scripts are written for the powers of two up to the number given and for the number itself, in
increasing order and each once, if and only if the number is at least 1 and below `2 ^ 62`. -/
theorem nodeCounts_decimal_iff (m : ℕ) :
    (∃ (steps : ℕ) (numbers : List ℕ),
      nodeCounts steps (decimal m) = some (.ok (numbers.map decimal)) ∧
      numbers.Pairwise (· < ·) ∧ ∀ n, n ∈ numbers ↔ n = m ∨ ∃ k, n = 2 ^ k ∧ n ≤ m) ↔
      1 ≤ m ∧ m < 2 ^ 62 := by
  constructor
  · rintro ⟨steps, numbers, hok, -, hmem⟩
    obtain ⟨v, hv, hpos, hlt, htexts⟩ := nodeCounts_eq_ok hok
    have hv63 : v < 2 ^ 63 := hlt.trans (by decide)
    have hm : 1 ≤ m := by
      by_contra hzero
      obtain rfl : m = 0 := by omega
      have hv0 : bashInt 0 = bashInt v := Option.some.inj hv
      rw [bashInt_inj (by decide) hv63] at hv0
      omega
    refine ⟨hm, ?_⟩
    rw [bashConstant_decimal hm] at hv
    by_contra hlarge
    rw [not_lt] at hlarge
    -- otherwise `2 ^ 62` is promised, but it is no power up to `v`
    have hpromised := (hmem (2 ^ 62)).mpr (.inr ⟨62, rfl, hlarge⟩)
    have hpromised := List.mem_map_of_mem (f := decimal) hpromised
    rw [htexts, List.mem_append] at hpromised
    rcases hpromised with hpower | hlast
    · obtain ⟨n, hn, heq⟩ := List.mem_map.mp hpower
      obtain ⟨-, -, hle⟩ := (mem_powersUpTo hpos).mp hn
      have := decimal_injective heq
      omega
    · split at hlast
      · have heq := decimal_injective (List.mem_singleton.mp hlast)
        rw [← heq] at hv
        have := (bashInt_inj (by decide) hv63).mp (Option.some.inj hv)
        omega
      · exact absurd hlast List.not_mem_nil
  · rintro ⟨hpos, hlt⟩
    obtain ⟨steps, hok⟩ :=
      exists_nodeCounts (isDigits_decimal m) hpos hlt (bashConstant_decimal hpos)
    rw [← map_decimal_sweep] at hok
    exact ⟨steps, sweep m, hok, pairwise_sweep hpos, fun n => mem_sweep hpos⟩

end Sweep

end LibFatbat
