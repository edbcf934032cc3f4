import LibFatbat.Number
import LibFatbat.Scripts.CpuList
import Mathlib.Tactic.Ring

/-!
# The CPUs of a rank

When Slurm leaves the tasks of a node unbound, `wrapper-mpi-binding.sh` splits the CPUs that it sees
among the local ranks, with the 64-bit integers of bash, and binds each to its slice.

Main result: `cpuSlices_partition`. The slices are equal shares of the list, and the text that a
rank is bound to stands for its slice.
-/

namespace LibFatbat

open Text

/-- `slice_start` and `slice_count`. -/
structure CpuSlice where
  sliceStart : Int64
  sliceCount : Int64
  deriving DecidableEq

/-- The slice of a local rank. -/
def cpuSlice (cpuCountCurrent ranksPerNode lrank : Int64) : CpuSlice :=
  let base := cpuCountCurrent / ranksPerNode
  let rem := cpuCountCurrent % ranksPerNode
  if lrank < rem then ⟨lrank * (base + 1), base + 1⟩
  else ⟨rem * (base + 1) + (lrank - rem) * base, base⟩

/-- `"${cpu_ids[@]:slice_start:slice_count}"`, for a start and a count that are not negative. -/
def CpuSlice.of (s : CpuSlice) (cpuIds : List ℕ) : List ℕ :=
  (cpuIds.drop s.sliceStart.toInt.toNat).take s.sliceCount.toInt.toNat

/-- `bind_cpus`, the list that `taskset` is given, unless the slice is empty. -/
def bindCpus (cpuCountCurrent ranksPerNode lrank : Int64) (cpuIds : List ℕ) :
    Option (List Char) :=
  let s := cpuSlice cpuCountCurrent ranksPerNode lrank
  if 0 < s.sliceCount then
    let bindCpus := compressCpuList (s.of cpuIds)
    if bindCpus.isEmpty then none else some bindCpus
  else none

/-- The whole fallback: the list that `taskset` is given, if it is called. `unbound` says that the
fallback is not disabled and that Slurm has set no `SLURM_CPUS_PER_TASK`, and `nproc` is the number
that `nproc --all` prints, if it prints one. -/
def autoSplit (unbound : Bool) (nproc : Option Int64) (ranksPerNode lrank : Int64)
    (cpus : List Char) : Option (List Char) := do
  if unbound && decide (1 < ranksPerNode) then
    let cpuCountCurrent := Int64.ofInt (← countCpusInList cpus)
    let cpuCountNode :=
      match nproc with
      | some n => if n ≤ 0 then cpuCountCurrent else n
      | none => cpuCountCurrent
    if cpuCountCurrent = cpuCountNode then
      let cpuIds := (← expandCpuList cpus).map Int.toNat
      if Int64.ofNat cpuIds.length = cpuCountCurrent then
        bindCpus cpuCountCurrent ranksPerNode lrank cpuIds
      else none
    else none
  else none

/-! ### The arithmetic -/

/-- What fits 64 bits is not wrapped. -/
theorem toInt_ofInt_natCast {x : ℤ} {n : ℕ} (hx : x = n) (hn : n < 2 ^ 63) :
    (Int64.ofInt x).toInt = n := by
  rw [hx]
  exact Int64.toInt_ofInt_of_le (by omega) (by omega)

/-- The slice of a rank begins where its share does, and is as large. -/
theorem cpuSlice_eq {n p r : ℕ} {cpuCountCurrent ranksPerNode lrank : Int64}
    (hn : cpuCountCurrent.toInt = n) (hp : ranksPerNode.toInt = p) (hr : lrank.toInt = r)
    (hlt : r < p) :
    (cpuSlice cpuCountCurrent ranksPerNode lrank).sliceStart.toInt = Shares.start n p r ∧
      (cpuSlice cpuCountCurrent ranksPerNode lrank).sliceCount.toInt = Shares.count n p r := by
  have hn63 : n < 2 ^ 63 := by
    have := cpuCountCurrent.toInt_lt
    omega
  have hend : Shares.start n p r + Shares.count n p r ≤ n :=
    (Shares.start_add_count_le hlt).trans_eq (Shares.start_self (by omega))
  have hbase : cpuCountCurrent / ranksPerNode = Int64.ofInt (n / p : ℕ) := by
    have hne : ranksPerNode ≠ -1 := by
      rintro rfl
      exact absurd hp (by simp)
    rw [Int.ofNat_tdiv, ← hn, ← hp, ← Int64.toInt_div_of_ne_right _ _ hne, Int64.ofInt_toInt]
  have hrem : cpuCountCurrent % ranksPerNode = Int64.ofInt (n % p : ℕ) := by
    rw [Int.ofNat_tmod, ← hn, ← hp, ← Int64.toInt_mod, Int64.ofInt_toInt]
  have hlrank : lrank = Int64.ofInt r := by rw [← hr, Int64.ofInt_toInt]
  have hrem_toInt : (Int64.ofInt (n % p : ℕ)).toInt = (n % p : ℕ) :=
    toInt_ofInt_natCast rfl ((Nat.mod_le n p).trans_lt hn63)
  have hone : (1 : Int64) = Int64.ofInt 1 := rfl
  unfold cpuSlice
  simp only [hbase, hrem, Int64.lt_iff_toInt_lt, hr, hrem_toInt, Nat.cast_lt]
  -- the results are what they are without 64 bits, and these are not exceeded
  by_cases hfirst : r < n % p
  · rw [if_pos hfirst, hlrank, hone, ← Int64.ofInt_add, ← Int64.ofInt_mul]
    have hstart : (r : ℤ) * ((n / p : ℕ) + 1) = Shares.start n p r := by
      unfold Shares.start
      rw [Nat.min_eq_left hfirst.le]
      push_cast
      ring
    have hcount : ((n / p : ℕ) : ℤ) + 1 = Shares.count n p r := by
      unfold Shares.count
      rw [if_pos hfirst]
      exact Nat.cast_succ _
    exact ⟨toInt_ofInt_natCast hstart (by omega), toInt_ofInt_natCast hcount (by omega)⟩
  · rw [if_neg hfirst, hlrank, hone, ← Int64.ofInt_add, ← Int64.ofInt_mul, ← Int64.ofInt_sub,
      ← Int64.ofInt_mul, ← Int64.ofInt_add]
    have hstart : ((n % p : ℕ) : ℤ) * ((n / p : ℕ) + 1) + (r - (n % p : ℕ)) * (n / p : ℕ) =
        Shares.start n p r := by
      unfold Shares.start
      rw [Nat.min_eq_right (by omega)]
      push_cast
      ring
    have hcount : ((n / p : ℕ) : ℤ) = Shares.count n p r := by
      unfold Shares.count
      rw [if_neg hfirst]
    exact ⟨toInt_ofInt_natCast hstart (by omega), toInt_ofInt_natCast hcount (by omega)⟩

/-! ### The slices -/

/-- The slices of the local ranks, `0 ≤ lrank < ranksPerNode`, partition the list of CPUs. -/
structure SlicesPartition (cpuIds : List ℕ) (ranksPerNode : Int64) (slice : Int64 → CpuSlice) :
    Prop where
  /-- A slice ends before that of a later rank begins. -/
  ordered : ∀ i j, 0 ≤ i → i < j → j < ranksPerNode →
    (slice i).sliceStart.toInt + (slice i).sliceCount.toInt ≤ (slice j).sliceStart.toInt
  disjoint : ∀ i j, 0 ≤ i → i < j → j < ranksPerNode →
    ((slice i).of cpuIds).Disjoint ((slice j).of cpuIds)
  /-- The slices make up the list. -/
  cover : (List.range ranksPerNode.toInt.toNat).flatMap
    (fun lrank => (slice (Int64.ofNat lrank)).of cpuIds) = cpuIds
  /-- No slice is larger than another by more than one. -/
  balanced : ∀ i j, 0 ≤ i → i < ranksPerNode → 0 ≤ j → j < ranksPerNode →
    (slice i).sliceCount.toInt ≤ (slice j).sliceCount.toInt + 1

/-- A rank is bound to its slice, and not at all when this is empty. -/
def BindsSlice (slice : List ℕ) (bindCpus : Option (List Char)) : Prop :=
  (slice = [] → bindCpus = none) ∧
    (slice ≠ [] → ∃ text ∈ bindCpus, expandCpuList text = some (slice.map Nat.cast))

/-- A number of ranks, and a local rank, as natural numbers. -/
theorem exists_rank {ranksPerNode lrank : Int64} (hnonneg : 0 ≤ lrank)
    (hlt : lrank < ranksPerNode) :
    ∃ p r : ℕ, ranksPerNode.toInt = p ∧ lrank.toInt = r ∧ r < p := by
  have h0 : 0 ≤ lrank.toInt := Int64.le_iff_toInt_le.mp hnonneg
  have h1 : lrank.toInt < ranksPerNode.toInt := Int64.lt_iff_toInt_lt.mp hlt
  exact ⟨ranksPerNode.toInt.toNat, lrank.toInt.toNat, by omega, by omega, by omega⟩

/-- Two local ranks, the first before the second. -/
theorem exists_ranks {ranksPerNode i j : Int64} (hi : 0 ≤ i) (hij : i < j)
    (hj : j < ranksPerNode) :
    ∃ p r s : ℕ, ranksPerNode.toInt = p ∧ i.toInt = r ∧ j.toInt = s ∧ r < s ∧ s < p := by
  obtain ⟨p, s, hp, hs, hsp⟩ := exists_rank (Int64.le_trans hi (Int64.le_of_lt hij)) hj
  obtain ⟨-, r, -, hr, -⟩ := exists_rank hi (Int64.lt_trans hij hj)
  have hrs : r < s := by
    have := Int64.lt_iff_toInt_lt.mp hij
    omega
  exact ⟨p, r, s, hp, hr, hs, hrs, hsp⟩

variable {cpuIds : List ℕ} {ranksPerNode lrank : Int64}

/-- The slice of a rank is its share. -/
theorem cpuSlice_of (hlength : cpuIds.length < 2 ^ 63) {p r : ℕ} (hp : ranksPerNode.toInt = p)
    (hr : lrank.toInt = r) (hlt : r < p) :
    (cpuSlice (Int64.ofNat cpuIds.length) ranksPerNode lrank).of cpuIds =
      Shares.share cpuIds p r := by
  obtain ⟨hstart, hcount⟩ := cpuSlice_eq (Int64.toInt_ofNat_of_lt hlength) hp hr hlt
  unfold CpuSlice.of Shares.share
  rw [hstart, hcount, Int.toNat_natCast, Int.toNat_natCast]

theorem slicesPartition (hdistinct : cpuIds.Nodup) (hlength : cpuIds.length < 2 ^ 63)
    (hranks : 1 ≤ ranksPerNode) :
    SlicesPartition cpuIds ranksPerNode
      (cpuSlice (Int64.ofNat cpuIds.length) ranksPerNode) where
  ordered i j hi hij hj := by
    obtain ⟨p, r, s, hp, hr, hs, hrs, hsp⟩ := exists_ranks hi hij hj
    obtain ⟨hstart, hcount⟩ := cpuSlice_eq (Int64.toInt_ofNat_of_lt hlength) hp hr (by omega)
    obtain ⟨hstart', -⟩ := cpuSlice_eq (Int64.toInt_ofNat_of_lt hlength) hp hs hsp
    rw [hstart, hcount, hstart']
    exact_mod_cast Shares.start_add_count_le hrs
  disjoint i j hi hij hj := by
    obtain ⟨p, r, s, hp, hr, hs, hrs, hsp⟩ := exists_ranks hi hij hj
    rw [cpuSlice_of hlength hp hr (by omega), cpuSlice_of hlength hp hs hsp]
    exact Shares.disjoint_share hdistinct p hrs
  cover := by
    -- the number of ranks is positive, and every rank below it fits 64 bits
    have hpos : 1 ≤ ranksPerNode.toInt := Int64.le_iff_toInt_le.mp hranks
    have hbound := ranksPerNode.toInt_lt
    have hp : ranksPerNode.toInt = (ranksPerNode.toInt.toNat : ℤ) := by omega
    have hshares : ∀ r ∈ List.range ranksPerNode.toInt.toNat,
        (cpuSlice (Int64.ofNat cpuIds.length) ranksPerNode (Int64.ofNat r)).of cpuIds =
          Shares.share cpuIds ranksPerNode.toInt.toNat r := by
      intro r hr
      have hlt : r < ranksPerNode.toInt.toNat := List.mem_range.mp hr
      exact cpuSlice_of hlength hp (Int64.toInt_ofNat_of_lt (by omega)) hlt
    rw [List.flatMap_congr hshares]
    exact Shares.flatMap_share cpuIds (by omega)
  balanced i j hi hip hj hjp := by
    obtain ⟨p, r, hp, hr, hrp⟩ := exists_rank hi hip
    obtain ⟨p', s, hp', hs, hsp⟩ := exists_rank hj hjp
    obtain rfl : p = p' := by omega
    obtain ⟨-, hcount⟩ := cpuSlice_eq (Int64.toInt_ofNat_of_lt hlength) hp hr hrp
    obtain ⟨-, hcount'⟩ := cpuSlice_eq (Int64.toInt_ofNat_of_lt hlength) hp hs hsp
    rw [hcount, hcount']
    exact_mod_cast Shares.count_le_succ cpuIds.length p r s

/-- A list that is not empty is not written as the empty text. -/
theorem compressCpuList_ne_nil {values : List ℕ} (hsmall : ∀ n ∈ values, n < 2 ^ 53)
    (hne : values ≠ []) : compressCpuList values ≠ [] := by
  intro h
  have hread := expandCpuList_compressCpuList hsmall
  rw [h] at hread
  have hnil : values.map (Nat.cast : ℕ → ℤ) = [] := (Option.some.inj hread).symm
  exact hne (List.map_eq_nil_iff.mp hnil)

/-- A rank is bound to its slice, whatever that is. -/
theorem bindsSlice (hsmall : ∀ cpu ∈ cpuIds, cpu < 2 ^ 53)
    (cpuCountCurrent ranksPerNode lrank : Int64) :
    BindsSlice ((cpuSlice cpuCountCurrent ranksPerNode lrank).of cpuIds)
      (bindCpus cpuCountCurrent ranksPerNode lrank cpuIds) := by
  unfold bindCpus
  generalize cpuSlice cpuCountCurrent ranksPerNode lrank = s
  have hslice : ∀ n ∈ s.of cpuIds, n < 2 ^ 53 := fun n hn =>
    hsmall n (List.drop_subset _ _ (List.take_subset _ _ hn))
  constructor
  · intro hempty
    -- the empty list is written as the empty text
    simp [hempty, compressCpuList]
  · intro hne
    have hcount : 0 < s.sliceCount := by
      rw [Int64.lt_iff_toInt_lt, Int64.toInt_zero]
      by_contra hle
      have hzero : s.sliceCount.toInt.toNat = 0 := by omega
      exact hne (by rw [CpuSlice.of, hzero, List.take_zero])
    have htext : (compressCpuList (s.of cpuIds)).isEmpty = false :=
      List.isEmpty_eq_false_iff.mpr (compressCpuList_ne_nil hslice hne)
    refine ⟨compressCpuList (s.of cpuIds), ?_, expandCpuList_compressCpuList hslice⟩
    simp only [if_pos hcount, htext]
    rfl

/-- The fallback, for more than one rank and a list of CPUs as it is written. -/
theorem autoSplit_compressCpuList (hsmall : ∀ cpu ∈ cpuIds, cpu < 2 ^ 53)
    (hlength : cpuIds.length ≤ 2 ^ 53) (hranks : 1 < ranksPerNode) (lrank : Int64) :
    autoSplit true (some (Int64.ofNat cpuIds.length)) ranksPerNode lrank
        (compressCpuList cpuIds) =
      bindCpus (Int64.ofNat cpuIds.length) ranksPerNode lrank cpuIds := by
  have hcount : Int64.ofInt (cpuIds.length : ℤ) = Int64.ofNat cpuIds.length :=
    Int64.ofInt_eq_ofNat
  have hids : (cpuIds.map (Nat.cast : ℕ → ℤ)).map Int.toNat = cpuIds := by
    rw [List.map_map]
    exact List.map_id' cpuIds
  have hnode : (if Int64.ofNat cpuIds.length ≤ 0 then Int64.ofNat cpuIds.length
      else Int64.ofNat cpuIds.length) = Int64.ofNat cpuIds.length := ite_self _
  unfold autoSplit
  simp only [hranks, decide_true, Bool.and_self, if_true,
    countCpusInList_compressCpuList hsmall hlength, expandCpuList_compressCpuList hsmall,
    Option.bind_eq_bind, Option.bind_some, hcount, hids, hnode]

/-- For every list of different CPUs and every number of ranks: the slices of the local ranks
partition the list. When the CPUs are below `2 ^ 53`, each rank is bound to its slice; and every
list of up to `2 ^ 53` numbers below `2 ^ 53` is read back as it was written, and counted. -/
theorem cpuSlices_partition (cpuIds : List ℕ) (hdistinct : cpuIds.Nodup)
    (hlength : cpuIds.length < 2 ^ 63) (ranksPerNode : Int64) (hranks : 1 ≤ ranksPerNode) :
    SlicesPartition cpuIds ranksPerNode
        (cpuSlice (Int64.ofNat cpuIds.length) ranksPerNode) ∧
      ((∀ cpu ∈ cpuIds, cpu < 2 ^ 53) → ∀ lrank,
        BindsSlice ((cpuSlice (Int64.ofNat cpuIds.length) ranksPerNode lrank).of cpuIds)
          (bindCpus (Int64.ofNat cpuIds.length) ranksPerNode lrank cpuIds)) ∧
      ∀ v : List ℕ, (∀ n ∈ v, n < 2 ^ 53) → v.length ≤ 2 ^ 53 →
        expandCpuList (compressCpuList v) = some (v.map Nat.cast) ∧
          countCpusInList (compressCpuList v) = some (v.length : ℤ) := by
  refine ⟨slicesPartition hdistinct hlength hranks, fun hsmall lrank => ?_, fun v hv hcount => ?_⟩
  · exact bindsSlice hsmall _ ranksPerNode lrank
  · exact ⟨expandCpuList_compressCpuList hv, countCpusInList_compressCpuList hv hcount⟩

/-- Five CPUs and two ranks. -/
theorem cpuSlices_partition_two_ranks :
    SlicesPartition [0, 1, 2, 5, 8] 2 (cpuSlice 5 2) ∧
      bindCpus 5 2 0 [0, 1, 2, 5, 8] = some "0-2".toList ∧
      bindCpus 5 2 1 [0, 1, 2, 5, 8] = some "5,8".toList :=
  ⟨(cpuSlices_partition [0, 1, 2, 5, 8] (by decide) (by decide) 2 (by decide)).1,
    by decide, by decide⟩

/-- `2 ^ 53 + 1` is not a double, and is read back as `2 ^ 53`. With more ranks than CPUs, a rank
without one is not bound. -/
theorem expandCpuList_not_double :
    expandCpuList (compressCpuList [2 ^ 53 + 1]) = some [2 ^ 53] ∧
      bindCpus 1 2 1 [0] = none := by
  decide

end LibFatbat
