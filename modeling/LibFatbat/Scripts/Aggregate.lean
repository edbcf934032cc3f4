import LibFatbat.Lists.Groups
import LibFatbat.Scripts.MessageSize
import Mathlib.Data.Char
import Mathlib.Data.List.Lex
import Mathlib.Data.Prod.Lex
import Mathlib.Order.WithBot

/-!
# The plots of the benchmarks

What `plot_benchmark_results.py` makes of the rows of all logs: `aggregate_peak` and
`aggregate_for_message_size` keep the largest bandwidth of each group of rows, and `plot_overview`
and `plot_per_rpn` draw a bar for what they find first of a number of nodes, a number of ranks per
node and a benchmark. Bandwidths are numbers as they were printed, not doubles.
-/

namespace LibFatbat

open Text Lists

/-! ### The rows -/

/-- A row of a summary. -/
structure SummaryRow where
  benchmark : List Char
  nodes : ℕ
  rpn : ℕ
  gpu : ℕ
  gpuDevice : ℕ
  bytes : ℕ
  /-- `peak_agg_bw_mb_s` or `fixed_agg_bw_mb_s`. -/
  aggBwMbS : PyFloat

def Record.summary (r : Record) : SummaryRow where
  benchmark := r.benchmark
  nodes := r.run.nodes
  rpn := r.run.rpn
  gpu := r.run.gpu
  gpuDevice := r.run.gpuDevice
  bytes := r.bytes
  aggBwMbS := r.aggBwMbS

/-- The order of numbers; `nan`, which is passed over, comes first. -/
def PyFloat.rank : PyFloat → WithBot (WithTop ℚ)
  | .finite value => ((value : WithTop ℚ) : WithBot (WithTop ℚ))
  | .inf => ((⊤ : WithTop ℚ) : WithBot (WithTop ℚ))
  | .nan => ⊥

def Record.bandwidth (r : Record) : WithBot (WithTop ℚ) := r.aggBwMbS.rank

/-- `group_cols` of `aggregate_peak`. -/
def groupCols (r : Record) : List Char ×ₗ ℕ ×ₗ ℕ ×ₗ ℕ ×ₗ ℕ :=
  toLex (r.benchmark, toLex (r.run.nodes, toLex (r.run.rpn, toLex (r.run.gpu, r.run.gpuDevice))))

/-- `group_cols` of `aggregate_for_message_size`. -/
def groupColsBytes (r : Record) : List Char ×ₗ ℕ ×ₗ ℕ ×ₗ ℕ ×ₗ ℕ ×ₗ ℕ :=
  toLex (r.benchmark, toLex (r.run.nodes, toLex (r.run.rpn, toLex (r.run.gpu,
    toLex (r.run.gpuDevice, r.bytes)))))

/-- `aggregate_peak`. -/
def aggregatePeak (df : List Record) : List SummaryRow :=
  (groupBests groupCols Record.bandwidth df).map Record.summary

/-- `aggregate_for_message_size`. The columns of a group and its maximum are a row of the summary,
that of the first row with the maximum. -/
def aggregateForMessageSize (df : List Record) (messageSize : ℕ) : List SummaryRow :=
  (groupBests groupColsBytes Record.bandwidth (df.filter fun r => r.bytes = messageSize)).map
    Record.summary

/-! ### The bars -/

/-- A bar of a plot. -/
structure PlotBar where
  rpn : ℕ
  benchmark : List Char
  nodes : ℕ
  value : PyFloat
  label : List Char
  deriving DecidableEq

/-- A figure. -/
structure Plot where
  /-- `unit`: whether the bandwidths are in GB/s. -/
  gigabytes : Bool
  bars : List PlotBar
  deriving DecidableEq

/-- `sorted_nodes`. -/
def sortedNodes (sub : List SummaryRow) : List ℕ := groupKeys SummaryRow.nodes sub

/-- The unit that `scale_bandwidth` chooses. -/
def scaleBandwidth (values : List PyFloat) : Bool :=
  match values.argmax PyFloat.rank with
  | none => false
  | some maxValue => decide ((PyFloat.finite 1000).rank ≤ maxValue.rank)

/-- `value / 1000.0`. -/
def PyFloat.thousandth : PyFloat → PyFloat
  | .finite value => .finite (value / 1000)
  | .inf => .inf
  | .nan => .nan

/-- A bar in the unit of the plot. -/
def PlotBar.scaled (gigabytes : Bool) (bar : PlotBar) : PlotBar :=
  if gigabytes then { bar with value := bar.value.thousandth } else bar

/-- The label of a bar; `none` is an exception. -/
def barLabel (annotateSizes : Bool) (hit : List SummaryRow) : Option (List Char) :=
  match hit.head? with
  | some row => if annotateSizes then formatBytes row.bytes else some []
  | none => some []

/-- The height of a bar: `hit[value_column].iloc[0]`, or 0. -/
def barValue (hit : List SummaryRow) : PyFloat :=
  match hit.head? with
  | some row => row.aggBwMbS
  | none => .finite 0

/-- A bar for the rows in `hit`. -/
def plotBar (annotateSizes : Bool) (rpn : ℕ) (benchmark : List Char) (nodes : ℕ)
    (hit : List SummaryRow) : Option PlotBar := do
  let label ← barLabel annotateSizes hit
  return ⟨rpn, benchmark, nodes, barValue hit, label⟩

/-- `benches`. -/
def benches : List (List Char) := ["read".toList, "write".toList, "writedata".toList]

/-- Where the bars are: for each number of ranks per node and each benchmark, one for each number
of nodes. -/
def combos (rpns nodes : List ℕ) : List (ℕ × List Char × ℕ) :=
  rpns.flatMap fun rpn => benches.flatMap fun bench => nodes.map fun n => (rpn, bench, n)

/-- A figure with the bars of `sub`, unless it is empty. -/
def plotBars (sub : List SummaryRow) (rpns : List ℕ) (annotateSizes : Bool)
    (hit : ℕ → List Char → ℕ → List SummaryRow) : Option (Option Plot) :=
  if sub.isEmpty then some none
  else do
    let bars ← (combos rpns (sortedNodes sub)).mapM fun (rpn, bench, n) =>
      plotBar annotateSizes rpn bench n (hit rpn bench n)
    let gigabytes := scaleBandwidth (bars.map PlotBar.value)
    return some ⟨gigabytes, bars.map (PlotBar.scaled gigabytes)⟩

/-- `plot_overview`: no figure if there is no data, and no result if there is an exception. -/
def plotOverview (data : List SummaryRow) (gpuFlag : ℕ) (annotateSizes : Bool) :
    Option (Option Plot) :=
  let sub := data.filter fun row => row.gpu = gpuFlag
  plotBars sub [1, 2, 4] annotateSizes fun rpn bench n =>
    sub.filter fun row => row.nodes = n && row.rpn = rpn && row.benchmark = bench

/-- `plot_per_rpn`. -/
def plotPerRpn (data : List SummaryRow) (gpuFlag rpn : ℕ) (annotateSizes : Bool) :
    Option (Option Plot) :=
  let sub := data.filter fun row => row.gpu = gpuFlag && row.rpn = rpn
  plotBars sub [rpn] annotateSizes fun _ bench n =>
    sub.filter fun row => row.nodes = n && row.benchmark = bench

/-! ### What a bar shows -/

section Traverse

variable {α β : Type} {f : α → Option β} {l : List α} {bs : List β} {b : β}

theorem mem_of_mapM (h : l.mapM f = some bs) : b ∈ bs ↔ ∃ a ∈ l, f a = some b := by
  induction l generalizing bs with
  | nil =>
    obtain rfl : [] = bs := Option.some.inj h
    simp
  | cons a l ih =>
    rw [List.mapM_cons] at h
    obtain ⟨b', hb', h⟩ := Option.bind_eq_some_iff.mp h
    obtain ⟨bs', hbs', h⟩ := Option.bind_eq_some_iff.mp h
    obtain rfl : b' :: bs' = bs := Option.some.inj h
    simp [ih hbs', hb', eq_comm]

theorem exists_of_mapM (h : l.mapM f = some bs) : ∀ a ∈ l, ∃ b, f a = some b := by
  induction l generalizing bs with
  | nil => simp
  | cons a l ih =>
    rw [List.mapM_cons] at h
    obtain ⟨b', hb', h⟩ := Option.bind_eq_some_iff.mp h
    obtain ⟨bs', hbs', -⟩ := Option.bind_eq_some_iff.mp h
    rw [List.forall_mem_cons]
    exact ⟨⟨b', hb'⟩, ih hbs'⟩

theorem exists_mapM (h : ∀ a ∈ l, ∃ b, f a = some b) : ∃ bs, l.mapM f = some bs := by
  induction l with
  | nil => exact ⟨[], rfl⟩
  | cons a l ih =>
    rw [List.forall_mem_cons] at h
    obtain ⟨b, hb⟩ := h.1
    obtain ⟨bs, hbs⟩ := ih h.2
    exact ⟨b :: bs, by rw [List.mapM_cons, hb, hbs]; rfl⟩

end Traverse

/-- The rows that a bar is for. -/
def Record.isAt (gpu rpn : ℕ) (benchmark : List Char) (nodes : ℕ) (r : Record) : Bool :=
  r.run.gpu = gpu && (r.run.nodes = nodes && r.run.rpn = rpn && r.benchmark = benchmark)

theorem Record.isAt_iff {gpu rpn n : ℕ} {bench : List Char} {r : Record} :
    r.isAt gpu rpn bench n = true ↔
      r.run.gpu = gpu ∧ r.run.nodes = n ∧ r.run.rpn = rpn ∧ r.benchmark = bench := by
  simp only [Record.isAt, Bool.and_eq_true, decide_eq_true_iff, and_assoc]

/-- `value * 1000`. -/
def PyFloat.thousandfold : PyFloat → PyFloat
  | .finite value => .finite (value * 1000)
  | .inf => .inf
  | .nan => .nan

/-- The bandwidth that a bar shows, in MB/s whatever the unit of the plot is. -/
def PlotBar.mbPerS (gigabytes : Bool) (bar : PlotBar) : PyFloat :=
  if gigabytes then bar.value.thousandfold else bar.value

/-- A bar for the row that was found, if one was. -/
structure PlotBar.Shows (annotateSizes gigabytes : Bool) (found : Option Record) (bar : PlotBar) :
    Prop where
  value : bar.mbPerS gigabytes = found.elim (.finite 0) Record.aggBwMbS
  label : some bar.label =
    found.elim (some []) fun r => if annotateSizes then formatBytes r.bytes else some []

section Bars

variable {rows : List Record} {gpu rpn n : ℕ} {bench : List Char} {annotateSizes : Bool}
  {plot : Plot} {bar : PlotBar} {sub : List SummaryRow} {rpns : List ℕ}
  {hit : ℕ → List Char → ℕ → List SummaryRow}

theorem PyFloat.thousandfold_thousandth (x : PyFloat) : x.thousandth.thousandfold = x := by
  cases x with
  | finite value => simp [PyFloat.thousandth, PyFloat.thousandfold]
  | inf => rfl
  | nan => rfl

theorem PlotBar.mbPerS_scaled (gigabytes : Bool) (bar : PlotBar) :
    (bar.scaled gigabytes).mbPerS gigabytes = bar.value := by
  unfold PlotBar.scaled PlotBar.mbPerS
  cases gigabytes with
  | false => rfl
  | true => exact bar.value.thousandfold_thousandth

/-- A bar in the unit of the plot stands where it stood, with its label. -/
theorem PlotBar.scaled_eq (gigabytes : Bool) (bar : PlotBar) :
    ∃ value, bar.scaled gigabytes = { bar with value := value } := by
  unfold PlotBar.scaled
  split
  · exact ⟨_, rfl⟩
  · exact ⟨bar.value, rfl⟩

theorem mem_combos {rpns nodes : List ℕ} : (rpn, bench, n) ∈ combos rpns nodes ↔
    rpn ∈ rpns ∧ bench ∈ benches ∧ n ∈ nodes := by
  simp only [combos, List.mem_flatMap, List.mem_map, Prod.mk.injEq]
  constructor
  · rintro ⟨rpn', hrpn, bench', hbench, n', hn, rfl, rfl, rfl⟩
    exact ⟨hrpn, hbench, hn⟩
  · rintro ⟨hrpn, hbench, hn⟩
    exact ⟨rpn, hrpn, bench, hbench, n, hn, rfl, rfl, rfl⟩

theorem barLabel_eq {hit : List SummaryRow} {found : Option Record}
    (hhead : hit.head? = found.map Record.summary) : barLabel annotateSizes hit =
      found.elim (some []) fun r => if annotateSizes then formatBytes r.bytes else some [] := by
  unfold barLabel
  rw [hhead]
  cases found with
  | none => rfl
  | some r => rfl

/-- A bar shows what comes first of its rows. -/
theorem plotBar_shows {hit : List SummaryRow} {found : Option Record}
    (hhead : hit.head? = found.map Record.summary)
    (h : plotBar annotateSizes rpn bench n hit = some bar) (gigabytes : Bool) :
    (bar.scaled gigabytes).Shows annotateSizes gigabytes found ∧
      bar.rpn = rpn ∧ bar.benchmark = bench ∧ bar.nodes = n := by
  obtain ⟨label, hlabel, h⟩ := Option.bind_eq_some_iff.mp h
  obtain rfl := Option.some.inj h
  obtain ⟨value, hscaled⟩ := PlotBar.scaled_eq gigabytes ⟨rpn, bench, n, barValue hit, label⟩
  refine ⟨⟨?_, ?_⟩, rfl, rfl, rfl⟩
  · rw [PlotBar.mbPerS_scaled]
    unfold barValue
    rw [hhead]
    cases found with
    | none => rfl
    | some r => rfl
  · rw [hscaled]
    rw [← barLabel_eq hhead, hlabel]

/-- The bars of a figure, one for each place. -/
theorem mem_bars (h : plotBars sub rpns annotateSizes hit = some (some plot)) :
    bar ∈ plot.bars ↔ ∃ rpn bench n bar₀, (rpn, bench, n) ∈ combos rpns (sortedNodes sub) ∧
      plotBar annotateSizes rpn bench n (hit rpn bench n) = some bar₀ ∧
      bar = bar₀.scaled plot.gigabytes := by
  unfold plotBars at h
  split at h
  · cases h
  obtain ⟨bars, hbars, h⟩ := Option.bind_eq_some_iff.mp h
  obtain rfl := Option.some.inj (Option.some.inj h)
  simp only [List.mem_map, mem_of_mapM hbars]
  constructor
  · rintro ⟨bar₀, ⟨⟨rpn, bench, n⟩, hmem, hbar⟩, rfl⟩
    exact ⟨rpn, bench, n, bar₀, hmem, hbar, rfl⟩
  · rintro ⟨rpn, bench, n, bar₀, hmem, hbar, rfl⟩
    exact ⟨bar₀, ⟨(rpn, bench, n), hmem, hbar⟩, rfl⟩

/-- Where there is a figure there is a bar at each place. -/
theorem exists_plotBar (h : plotBars sub rpns annotateSizes hit = some (some plot))
    (hplace : (rpn, bench, n) ∈ combos rpns (sortedNodes sub)) :
    ∃ bar₀, plotBar annotateSizes rpn bench n (hit rpn bench n) = some bar₀ := by
  unfold plotBars at h
  split at h
  · cases h
  obtain ⟨bars, hbars, -⟩ := Option.bind_eq_some_iff.mp h
  exact exists_of_mapM hbars _ hplace

/-- There is no figure only if there is no data. -/
theorem eq_nil_of_plotBars (h : plotBars sub rpns annotateSizes hit = some none) : sub = [] := by
  unfold plotBars at h
  split at h
  · rename_i hempty
    exact List.isEmpty_iff.mp hempty
  · obtain ⟨bars, -, h⟩ := Option.bind_eq_some_iff.mp h
    cases Option.some.inj h

/-- If all bars can be made, there is a figure, or none for want of data. -/
theorem exists_plotBars
    (h : ∀ rpn bench n, ∃ bar, plotBar annotateSizes rpn bench n (hit rpn bench n) = some bar) :
    ∃ figure, plotBars sub rpns annotateSizes hit = some figure := by
  unfold plotBars
  split
  · exact ⟨none, rfl⟩
  · obtain ⟨bars, hbars⟩ := exists_mapM fun (place : ℕ × List Char × ℕ)
      (_ : place ∈ combos rpns (sortedNodes sub)) => h place.1 place.2.1 place.2.2
    exact ⟨_, Option.bind_eq_some_iff.mpr ⟨bars, hbars, rfl⟩⟩

/-- A bar shows the first row of its place, where that comes first of its rows. -/
theorem shows_of_plotBars (h : plotBars sub rpns annotateSizes hit = some (some plot))
    (hhead : ∀ rpn bench n, rpn ∈ rpns →
      (hit rpn bench n).head? = (rows.find? (Record.isAt gpu rpn bench n)).map Record.summary)
    (hbar : bar ∈ plot.bars) :
    bar.Shows annotateSizes plot.gigabytes
        (rows.find? (Record.isAt gpu bar.rpn bar.benchmark bar.nodes)) ∧
      bar.rpn ∈ rpns ∧ bar.benchmark ∈ benches ∧ bar.nodes ∈ sortedNodes sub := by
  obtain ⟨rpn, bench, n, bar₀, hmem, hbar₀, rfl⟩ := (mem_bars h).mp hbar
  rw [mem_combos] at hmem
  obtain ⟨hshows, hrpn, hbench, hn⟩ :=
    plotBar_shows (hhead rpn bench n hmem.1) hbar₀ plot.gigabytes
  obtain ⟨value, hscaled⟩ := PlotBar.scaled_eq plot.gigabytes bar₀
  have hplace : (bar₀.scaled plot.gigabytes).rpn = rpn ∧
      (bar₀.scaled plot.gigabytes).benchmark = bench ∧
      (bar₀.scaled plot.gigabytes).nodes = n := by
    rw [hscaled]
    exact ⟨hrpn, hbench, hn⟩
  rw [hplace.1, hplace.2.1, hplace.2.2]
  exact ⟨hshows, hmem⟩

end Bars

/-! ### The overview -/

section Overview

variable {rows : List Record} {gpu rpn n : ℕ} {bench : List Char} {annotateSizes : Bool}
  {plot : Plot} {bar : PlotBar} {r : Record}

theorem head?_overview (rows : List Record) :
    (((rows.map Record.summary).filter fun row => row.gpu = gpu).filter fun row =>
      row.nodes = n && row.rpn = rpn && row.benchmark = bench).head? =
      (rows.find? (Record.isAt gpu rpn bench n)).map Record.summary := by
  have hplace : ((fun row : SummaryRow => decide (decide (row.gpu = gpu) = true ∧
      (decide (row.nodes = n) && decide (row.rpn = rpn) && decide (row.benchmark = bench)) =
        true)) ∘ Record.summary) = Record.isAt gpu rpn bench n := by
    funext r
    rw [Function.comp_apply, Bool.decide_and, Bool.decide_eq_true, Bool.decide_eq_true]
    rfl
  rw [List.head?_filter, List.find?_filter, List.find?_map, hplace]

theorem head?_perRpn (rows : List Record) :
    (((rows.map Record.summary).filter fun row => row.gpu = gpu && row.rpn = rpn).filter fun row =>
      row.nodes = n && row.benchmark = bench).head? =
      (rows.find? (Record.isAt gpu rpn bench n)).map Record.summary := by
  have hplace : ((fun row : SummaryRow => decide ((decide (row.gpu = gpu) &&
      decide (row.rpn = rpn)) = true ∧ (decide (row.nodes = n) &&
        decide (row.benchmark = bench)) = true)) ∘ Record.summary) =
      Record.isAt gpu rpn bench n := by
    funext r
    rw [Bool.eq_iff_iff, Record.isAt_iff, Function.comp_apply]
    simp only [decide_eq_true_iff, Bool.and_eq_true]
    constructor
    · rintro ⟨⟨hgpu, hrpn⟩, hn, hbench⟩
      exact ⟨hgpu, hn, hrpn, hbench⟩
    · rintro ⟨hgpu, hn, hrpn, hbench⟩
      exact ⟨⟨hgpu, hrpn⟩, hn, hbench⟩
  rw [List.head?_filter, List.find?_filter, List.find?_map, hplace]

theorem mem_sortedNodes_overview :
    n ∈ sortedNodes ((rows.map Record.summary).filter fun row => row.gpu = gpu) ↔
      ∃ r ∈ rows, r.run.gpu = gpu ∧ r.run.nodes = n := by
  rw [sortedNodes, mem_groupKeys]
  simp only [List.mem_filter, List.mem_map, decide_eq_true_iff]
  constructor
  · rintro ⟨_, ⟨⟨r, hr, rfl⟩, hgpu⟩, hnodes⟩
    exact ⟨r, hr, hgpu, hnodes⟩
  · rintro ⟨r, hr, hgpu, hnodes⟩
    exact ⟨r.summary, ⟨⟨r, hr, rfl⟩, hgpu⟩, hnodes⟩

/-- Each bar of the overview shows the first row of its place. -/
theorem shows_of_overview (h : plotOverview (rows.map Record.summary) gpu annotateSizes =
    some (some plot)) (hbar : bar ∈ plot.bars) :
    bar.Shows annotateSizes plot.gigabytes
        (rows.find? (Record.isAt gpu bar.rpn bar.benchmark bar.nodes)) ∧
      bar.rpn ∈ [1, 2, 4] ∧ bar.benchmark ∈ benches ∧
        ∃ r ∈ rows, r.run.gpu = gpu ∧ r.run.nodes = bar.nodes := by
  unfold plotOverview at h
  obtain ⟨hshows, hrpn, hbench, hnodes⟩ :=
    shows_of_plotBars h (fun rpn bench n _ => head?_overview rows) hbar
  exact ⟨hshows, hrpn, hbench, mem_sortedNodes_overview.mp hnodes⟩

/-- Each place of the overview has a bar. -/
theorem exists_bar_of_overview (h : plotOverview (rows.map Record.summary) gpu annotateSizes =
    some (some plot)) (hrpn : rpn ∈ [1, 2, 4]) (hbench : bench ∈ benches) (hr : r ∈ rows)
    (hgpu : r.run.gpu = gpu) :
    ∃ bar ∈ plot.bars, bar.rpn = rpn ∧ bar.benchmark = bench ∧ bar.nodes = r.run.nodes := by
  unfold plotOverview at h
  have hplace : (rpn, bench, r.run.nodes) ∈ combos [1, 2, 4]
      (sortedNodes ((rows.map Record.summary).filter fun row => row.gpu = gpu)) :=
    mem_combos.mpr ⟨hrpn, hbench, mem_sortedNodes_overview.mpr ⟨r, hr, hgpu, rfl⟩⟩
  obtain ⟨bar₀, hbar₀⟩ := exists_plotBar h hplace
  obtain ⟨-, hrpn', hbench', hn'⟩ := plotBar_shows (head?_overview rows) hbar₀ plot.gigabytes
  obtain ⟨value, hscaled⟩ := PlotBar.scaled_eq plot.gigabytes bar₀
  refine ⟨_, (mem_bars h).mpr ⟨_, _, _, _, hplace, hbar₀, rfl⟩, ?_⟩
  rw [hscaled]
  exact ⟨hrpn', hbench', hn'⟩

/-- There is a figure, or none for want of data, unless a label cannot be made. -/
theorem exists_overview (rows : List Record) (gpu : ℕ) (annotateSizes : Bool)
    (hlabels : annotateSizes = true → ∀ r ∈ rows, ∃ label, formatBytes r.bytes = some label) :
    ∃ figure, plotOverview (rows.map Record.summary) gpu annotateSizes = some figure := by
  unfold plotOverview
  refine exists_plotBars fun rpn bench n => ?_
  unfold plotBar
  rw [barLabel_eq (head?_overview rows)]
  cases hfound : rows.find? (Record.isAt gpu rpn bench n) with
  | none => exact ⟨_, rfl⟩
  | some r =>
    cases annotateSizes with
    | false => exact ⟨_, rfl⟩
    | true =>
      obtain ⟨label, hlabel⟩ := hlabels rfl r (List.mem_of_find?_eq_some hfound)
      rw [Option.elim_some, if_pos rfl, hlabel]
      exact ⟨_, rfl⟩

/-- The figures for a number of ranks per node show what the overview shows. -/
theorem exists_bar_of_perRpn {perRpn : Plot} (hrpn : rpn ∈ [1, 2, 4])
    (hall : plotOverview (rows.map Record.summary) gpu annotateSizes = some (some plot))
    (h : plotPerRpn (rows.map Record.summary) gpu rpn annotateSizes = some (some perRpn))
    (hbar : bar ∈ perRpn.bars) :
    ∃ bar' ∈ plot.bars, bar'.rpn = bar.rpn ∧ bar'.benchmark = bar.benchmark ∧
      bar'.nodes = bar.nodes ∧ bar'.label = bar.label ∧
        bar'.mbPerS plot.gigabytes = bar.mbPerS perRpn.gigabytes := by
  unfold plotPerRpn at h
  -- the subset of one number of ranks per node has the same first row at each place
  have hhead : ∀ rpn' bench n, rpn' ∈ [rpn] →
      (((rows.map Record.summary).filter fun row => row.gpu = gpu && row.rpn = rpn).filter
        fun row => row.nodes = n && row.benchmark = bench).head? =
          (rows.find? (Record.isAt gpu rpn' bench n)).map Record.summary := by
    intro rpn' bench n hrpn'
    rw [List.mem_singleton.mp hrpn']
    exact head?_perRpn rows
  obtain ⟨hshows, hrpn', hbench, hnodes⟩ := shows_of_plotBars h hhead hbar
  obtain rfl := List.mem_singleton.mp hrpn'
  obtain ⟨_, hrow, hn⟩ := mem_groupKeys.mp hnodes
  rw [List.mem_filter, List.mem_map, Bool.and_eq_true, decide_eq_true_iff] at hrow
  obtain ⟨⟨r, hr, rfl⟩, hgpu, -⟩ := hrow
  -- the overview has a bar at the same place, and both show the row
  obtain ⟨bar', hbar', hrpn'', hbench', hn'⟩ := exists_bar_of_overview hall hrpn hbench hr hgpu
  have hn'' : bar'.nodes = bar.nodes := hn'.trans hn
  have hshows' := (shows_of_overview hall hbar').1
  rw [hrpn'', hbench', hn''] at hshows'
  refine ⟨bar', hbar', hrpn'', hbench', hn'', ?_, hshows'.value.trans hshows.value.symm⟩
  exact Option.some.inj (hshows'.label.trans hshows.label.symm)

theorem overview_eq_none (h : plotOverview (rows.map Record.summary) gpu annotateSizes = some none)
    (hr : r ∈ rows) : r.run.gpu ≠ gpu := by
  intro hgpu
  unfold plotOverview at h
  have hempty := List.filter_eq_nil_iff.mp (eq_nil_of_plotBars h)
  exact hempty r.summary (List.mem_map_of_mem hr) (decide_eq_true hgpu)

end Overview

/-! ### The rows that bars show -/

/-- The row that a bar shows, of the rows at its place: among those of the GPU device with the
least number, one of the largest bandwidth. -/
structure StandsFor (df : List Record) (place : Record → Bool) (r : Record) : Prop where
  mem : r ∈ df
  isAt : place r
  leastDevice : ∀ r' ∈ df, place r' → r.run.gpuDevice ≤ r'.run.gpuDevice
  best : ∀ r' ∈ df, place r' → r'.run.gpuDevice = r.run.gpuDevice → r'.bandwidth ≤ r.bandwidth

section Rows

variable {df : List Record} {place : Record → Bool} {gpu rpn n : ℕ} {bench : List Char}
  {r r' : Record}

/-- All rows that stand for a place have the same bandwidth. -/
theorem StandsFor.bandwidth_eq (h : StandsFor df place r) (h' : StandsFor df place r') :
    r.bandwidth = r'.bandwidth := by
  have hdevice : r.run.gpuDevice = r'.run.gpuDevice :=
    le_antisymm (h.leastDevice r' h'.mem h'.isAt) (h'.leastDevice r h.mem h.isAt)
  exact le_antisymm (h'.best r h.mem h.isAt hdevice) (h.best r' h'.mem h'.isAt hdevice.symm)

/-- A row that stands for a place still does so among fewer rows. -/
theorem StandsFor.filter (h : StandsFor df place r) {p : Record → Bool} (hp : p r = true) :
    StandsFor (df.filter p) place r where
  mem := List.mem_filter.mpr ⟨h.mem, hp⟩
  isAt := h.isAt
  leastDevice r' hr' := h.leastDevice r' (List.mem_filter.mp hr').1
  best r' hr' := h.best r' (List.mem_filter.mp hr').1

theorem PyFloat.rank_injective : Function.Injective PyFloat.rank := by
  intro x y h
  cases x with
  | finite a =>
    cases y with
    | finite b => simpa [PyFloat.rank] using h
    | inf => simp [PyFloat.rank] at h
    | nan => simp [PyFloat.rank] at h
  | inf =>
    cases y with
    | finite b => simp [PyFloat.rank] at h
    | inf => rfl
    | nan => simp [PyFloat.rank] at h
  | nan =>
    cases y with
    | finite b => simp [PyFloat.rank] at h
    | inf => simp [PyFloat.rank] at h
    | nan => rfl

theorem isAt_congr_groupCols (gpu rpn : ℕ) (bench : List Char) (n : ℕ) (r r' : Record)
    (h : groupCols r = groupCols r') : r.isAt gpu rpn bench n = r'.isAt gpu rpn bench n := by
  simp only [groupCols, EmbeddingLike.apply_eq_iff_eq, Prod.mk.injEq] at h
  unfold Record.isAt
  rw [h.1, h.2.1, h.2.2.1, h.2.2.2.1]

theorem isAt_congr_groupColsBytes (gpu rpn : ℕ) (bench : List Char) (n : ℕ) (r r' : Record)
    (h : groupColsBytes r = groupColsBytes r') :
    r.isAt gpu rpn bench n = r'.isAt gpu rpn bench n := by
  simp only [groupColsBytes, EmbeddingLike.apply_eq_iff_eq, Prod.mk.injEq] at h
  unfold Record.isAt
  rw [h.1, h.2.1, h.2.2.1, h.2.2.2.1]

/-- What a bar of peaks shows stands for its place. -/
theorem standsFor_peak
    (h : (groupBests groupCols Record.bandwidth df).find? (Record.isAt gpu rpn bench n) = some r) :
    StandsFor df (Record.isAt gpu rpn bench n) r := by
  have hbest := isLeastBest_of_find? (isAt_congr_groupCols gpu rpn bench n) h
  obtain ⟨hgpu, hn, hrpn, hbench⟩ := Record.isAt_iff.mp hbest.holds
  refine ⟨hbest.mem, hbest.holds, fun r' hmem' hat' => ?_, fun r' hmem' hat' hdevice => ?_⟩
  · obtain ⟨hgpu', hn', hrpn', hbench'⟩ := Record.isAt_iff.mp hat'
    have hle := hbest.least r' hmem' hat'
    simpa [groupCols, Prod.Lex.toLex_le_toLex, hgpu, hn, hrpn, hbench, hgpu', hn', hrpn', hbench']
      using hle
  · obtain ⟨hgpu', hn', hrpn', hbench'⟩ := Record.isAt_iff.mp hat'
    refine hbest.best r' hmem' ?_
    simp only [groupCols, hgpu, hn, hrpn, hbench, hgpu', hn', hrpn', hbench', hdevice]

/-- What a bar for a message size shows stands for its place, among the rows of that size. -/
theorem standsFor_fixed {messageSize : ℕ}
    (h : (groupBests groupColsBytes Record.bandwidth
      (df.filter fun r => r.bytes = messageSize)).find? (Record.isAt gpu rpn bench n) = some r) :
    StandsFor (df.filter fun r => r.bytes = messageSize) (Record.isAt gpu rpn bench n) r := by
  have hbest := isLeastBest_of_find? (isAt_congr_groupColsBytes gpu rpn bench n) h
  obtain ⟨hgpu, hn, hrpn, hbench⟩ := Record.isAt_iff.mp hbest.holds
  have hbytes : r.bytes = messageSize := of_decide_eq_true (List.mem_filter.mp hbest.mem).2
  refine ⟨hbest.mem, hbest.holds, fun r' hmem' hat' => ?_, fun r' hmem' hat' hdevice => ?_⟩
  · obtain ⟨hgpu', hn', hrpn', hbench'⟩ := Record.isAt_iff.mp hat'
    have hle := hbest.least r' hmem' hat'
    have hcases : r.run.gpuDevice < r'.run.gpuDevice ∨
        r.run.gpuDevice = r'.run.gpuDevice ∧ r.bytes ≤ r'.bytes := by
      simpa [groupColsBytes, Prod.Lex.toLex_le_toLex, hgpu, hn, hrpn, hbench, hgpu', hn', hrpn',
        hbench'] using hle
    rcases hcases with hlt | ⟨heq, -⟩
    · exact hlt.le
    · exact heq.le
  · obtain ⟨hgpu', hn', hrpn', hbench'⟩ := Record.isAt_iff.mp hat'
    have hbytes' : r'.bytes = messageSize := of_decide_eq_true (List.mem_filter.mp hmem').2
    refine hbest.best r' hmem' ?_
    simp only [groupColsBytes, hgpu, hn, hrpn, hbench, hgpu', hn', hrpn', hbench', hdevice, hbytes,
      hbytes']

end Rows

/-! ### From a label to a plot -/

section Labels

variable {df : List Record} {gpu size : ℕ} {peak : Plot} {bar : PlotBar}

/-- The label of a bar of peaks, given to `--message-size`, makes a plot with the same bar: at the
same place, with the same bandwidth. Sizes of at most 53 bits are shown as they are. -/
theorem exists_bar_of_label (hbytes : ∀ r ∈ df, r.bytes ≤ 2 ^ 53)
    (hpeak : plotOverview (aggregatePeak df) gpu true = some (some peak)) (hbar : bar ∈ peak.bars)
    (hsize : parseMessageSizeArg bar.label = some size) :
    ∃ fixed bar', plotOverview (aggregateForMessageSize df size) gpu false = some (some fixed) ∧
      bar' ∈ fixed.bars ∧ bar'.rpn = bar.rpn ∧ bar'.benchmark = bar.benchmark ∧
        bar'.nodes = bar.nodes ∧ bar'.mbPerS fixed.gigabytes = bar.mbPerS peak.gigabytes := by
  obtain ⟨hshows, hrpn, hbench, -⟩ := shows_of_overview hpeak hbar
  cases hfound : (groupBests groupCols Record.bandwidth df).find?
      (Record.isAt gpu bar.rpn bar.benchmark bar.nodes) with
  | none =>
    -- a bar for no row has no label, which is no size
    rw [hfound] at hshows
    have hlabel : bar.label = [] := Option.some.inj hshows.label
    rw [hlabel] at hsize
    cases hsize
  | some r =>
    rw [hfound] at hshows
    have hstands := standsFor_peak hfound
    have hlabel := hshows.label
    rw [Option.elim_some, if_pos rfl, eq_comm] at hlabel
    obtain rfl := eq_of_parseMessageSizeArg (hbytes r hstands.mem) hlabel hsize
    have hstands' := hstands.filter (p := fun r' => r'.bytes = r.bytes) (decide_eq_true rfl)
    -- the row itself has this size, so that something is found, and it is no better
    cases hfound' : (groupBests groupColsBytes Record.bandwidth
        (df.filter fun r' => r'.bytes = r.bytes)).find?
          (Record.isAt gpu bar.rpn bar.benchmark bar.nodes) with
    | none =>
      have hnone := (find?_groupBests_eq_none (isAt_congr_groupColsBytes _ _ _ _)).mp hfound' r
        hstands'.mem
      rw [hstands'.isAt] at hnone
      cases hnone
    | some r' =>
      have hvalue : r.aggBwMbS = r'.aggBwMbS :=
        PyFloat.rank_injective (hstands'.bandwidth_eq (standsFor_fixed hfound'))
      have hmem' := List.mem_of_find?_eq_some hfound'
      obtain ⟨hgpu', hn', -, -⟩ := Record.isAt_iff.mp (List.find?_some hfound')
      obtain ⟨figure, hfigure⟩ := exists_overview
        (groupBests groupColsBytes Record.bandwidth (df.filter fun r' => r'.bytes = r.bytes)) gpu
        false (fun h => by cases h)
      cases figure with
      | none => exact absurd hgpu' (overview_eq_none hfigure hmem')
      | some fixed =>
        obtain ⟨bar', hbar', hrpn'', hbench'', hn''⟩ :=
          exists_bar_of_overview hfigure hrpn hbench hmem' hgpu'
        have hshows' := (shows_of_overview hfigure hbar').1
        rw [hn'] at hn''
        rw [hrpn'', hbench'', hn'', hfound'] at hshows'
        refine ⟨fixed, bar', hfigure, hbar', hrpn'', hbench'', hn'', ?_⟩
        rw [hshows'.value, hshows.value]
        exact hvalue.symm

/-- A read benchmark on two nodes, with a small and a large message size. -/
def twoRows : List Record :=
  [⟨[], "read".toList, ⟨2, 1, 2, 0, 0⟩, 64, 10, 10, .finite 1, .finite 1, .finite 5⟩,
    ⟨[], "read".toList, ⟨2, 1, 2, 0, 0⟩, 1024, 10, 10, .finite 1, .finite 1, .finite 2500⟩]

/-- The overview of their peaks. -/
def twoRowsPeak : Plot :=
  ⟨true, (combos [1, 2, 4] [2]).map fun (rpn, bench, n) =>
    if rpn = 1 ∧ bench = "read".toList then ⟨rpn, bench, n, .finite (5 / 2), "1 KiB".toList⟩
    else ⟨rpn, bench, n, .finite 0, []⟩⟩

/-- The peak is labelled `1 KiB`, and 1024 bytes show it again. -/
theorem exists_bar_of_label_two_rows :
    ∃ fixed bar, plotOverview (aggregateForMessageSize twoRows 1024) 0 false = some (some fixed) ∧
      bar ∈ fixed.bars ∧ bar.rpn = 1 ∧ bar.benchmark = "read".toList ∧ bar.nodes = 2 ∧
        bar.mbPerS fixed.gigabytes = .finite 2500 := by
  have hbytes : ∀ r ∈ twoRows, r.bytes ≤ 2 ^ 53 := by decide
  have hpeak : plotOverview (aggregatePeak twoRows) 0 true = some (some twoRowsPeak) := by
    decide +kernel
  have hbar : (⟨1, "read".toList, 2, .finite (5 / 2), "1 KiB".toList⟩ : PlotBar) ∈
      twoRowsPeak.bars := by decide +kernel
  have hsize : parseMessageSizeArg "1 KiB".toList = some 1024 := by decide +kernel
  obtain ⟨fixed, bar, hfixed, hmem, hrpn, hbench, hnodes, hvalue⟩ :=
    exists_bar_of_label hbytes hpeak hbar hsize
  refine ⟨fixed, bar, hfixed, hmem, hrpn, hbench, hnodes, hvalue.trans ?_⟩
  decide +kernel

end Labels

end LibFatbat
