import LibFatbat.Lists.Parts
import LibFatbat.Scripts.PlotResults
import Mathlib.Tactic.Ring

/-!
# Reading the logs back

Main result: `parseFile_logText_iff`. A log is read back as it was written, one record for each row
with the parameters of its run and the mode of the log, if and only if no row shows the quotient of
a division by 0 and no row of a `writedata` log comes after a header line that was lost.
-/

namespace LibFatbat

open Text Text.Regex

/-! ### Classes of characters -/

theorem isDigit_iff (c : Char) : c.isDigit = true ↔ 48 ≤ c.toNat ∧ c.toNat ≤ 57 := by
  unfold Char.isDigit
  rw [Bool.and_eq_true, decide_eq_true_iff, decide_eq_true_iff, ge_iff_le, UInt32.le_iff_toNat_le,
    UInt32.le_iff_toNat_le]
  exact Iff.rfl

theorem isFloatChar_of_isDigit {c : Char} (h : c.isDigit = true) : isFloatChar c = true := by
  unfold isFloatChar
  rw [h, Bool.true_or]

/-- What numbers are made of is not blank. -/
theorem isPySpace_of_isFloatChar {c : Char} (h : isFloatChar c = true) : isPySpace c = false := by
  unfold isFloatChar at h
  rw [Bool.or_eq_true, beq_iff_eq, isDigit_iff] at h
  obtain hdigit | rfl := h
  · unfold isPySpace
    simp
    omega
  · decide

theorem isPySpace_of_isDigit {c : Char} (h : c.isDigit = true) : isPySpace c = false :=
  isPySpace_of_isFloatChar (isFloatChar_of_isDigit h)

/-- A blank is in no class of characters that are not blank. -/
theorem eq_false_of_isPySpace {p : Char → Bool} (hp : ∀ c, p c = true → isPySpace c = false)
    {c : Char} (hc : isPySpace c = true) : p c = false := by
  rw [← Bool.not_eq_true]
  intro hpc
  rw [hp c hpc] at hc
  exact Bool.noConfusion hc

/-! ### The line of a run -/

/-- A number, and a text after it. -/
theorem captures_number {s : List Char} (h : s.head?.map Char.isDigit = some false)
    (name : String) (r : Regex) (n : ℕ) (rest : List Char) :
    captures (.seq (.group name (.plus Char.isDigit)) (.seq (.text s) r))
        (decimal n ++ (s ++ rest)) =
      (captures r rest).map ((name, decimal n) :: ·) := by
  have hdigits : ∀ c ∈ decimal n, c.isDigit = true := fun c hc => isDigit_of_mem_decimal hc
  rw [captures_seq_group_plus hdigits (decimal_ne_nil n) (notNext_append h rest)
    fun c hc => (rejects_text h (hdigits c hc)).seq, captures_seq_text]

theorem match_runRe (run : Run) : runRe.match? run.line =
    some [("nodes", decimal run.nodes), ("rpn", decimal run.rpn), ("tasks", decimal run.tasks),
      ("gpu", decimal run.gpu), ("gpu_device", decimal run.gpuDevice)] := by
  -- after the last number comes the end of the line, so that there is no rest
  have hlast := captures_number (s := " ---".toList) rfl "gpu_device" .eos run.gpuDevice []
  rw [List.append_nil] at hlast
  unfold match? runRe Run.line
  rw [captures_seq_text, captures_number rfl, captures_number rfl, captures_number rfl,
    captures_number rfl, hlast]
  rfl

/-- The parameters of a run are read as they were printed. -/
theorem parseLine_run (file : List Char) (st : ParseState) (run : Run) :
    parseLine file st run.line = some ⟨some run, none, st.rows⟩ := by
  have hread : readRun [("nodes", decimal run.nodes), ("rpn", decimal run.rpn),
      ("tasks", decimal run.tasks), ("gpu", decimal run.gpu),
      ("gpu_device", decimal run.gpuDevice)] = run := by
    obtain ⟨nodes, rpn, tasks, gpu, gpuDevice⟩ := run
    show Run.mk (digitsValue (decimal nodes)) (digitsValue (decimal rpn))
      (digitsValue (decimal tasks)) (digitsValue (decimal gpu))
      (digitsValue (decimal gpuDevice)) = _
    simp only [digitsValue_decimal]
  unfold parseLine
  simp only [match_runRe, hread]

/-! ### The rows -/

/-- A field, and the blanks after it: the whole column. -/
theorem captures_column {p : Char → Bool} {xs rest : List Char} {r : Regex} {width : ℕ}
    (hp : ∀ c, p c = true → isPySpace c = false) (hxs : ∀ c ∈ xs, p c = true) (hne : xs ≠ [])
    (hnarrow : xs.length < width) (hrest : NotNext isPySpace rest)
    (hr : ∀ c, isPySpace c = true → r.Rejects c) (name : String) :
    captures (.seq (.group name (.plus p)) (.seq (.plus isPySpace) r))
        (padRight width xs ++ rest) =
      (captures r rest).map ((name, xs) :: ·) := by
  have hblanks : ∀ c ∈ List.replicate (width - xs.length) ' ', isPySpace c = true := by
    intro c hc
    rw [(List.mem_replicate.mp hc).2]
    decide
  have hsome : List.replicate (width - xs.length) ' ' ≠ [] := by
    rw [Ne, List.replicate_eq_nil_iff]
    omega
  -- the field ends at the first blank, and there is one since it is narrower than the column
  have hafter : NotNext p (List.replicate (width - xs.length) ' ' ++ rest) := by
    intro c hc
    rw [List.head?_append_of_ne_nil _ hsome] at hc
    exact eq_false_of_isPySpace hp (hblanks c (List.mem_of_mem_head? hc))
  rw [padRight, List.append_assoc, captures_seq_group_plus hxs hne hafter
    fun c hc => (rejects_plus (hp c (hxs c hc))).seq,
    captures_seq_plus hblanks hsome hrest fun c hc => hr c (hblanks c hc)]

/-- The last column, and the end of the line. -/
theorem captures_last_column {p : Char → Bool} {xs : List Char} {width : ℕ}
    (hp : ∀ c, p c = true → isPySpace c = false) (hxs : ∀ c ∈ xs, p c = true) (hne : xs ≠ [])
    (name : String) :
    captures (.seq (.group name (.plus p)) (.seq (.star isPySpace) .eos)) (padRight width xs) =
      [[(name, xs)]] := by
  have hblanks : ∀ c ∈ List.replicate (width - xs.length) ' ', c = ' ' :=
    fun c hc => List.eq_of_mem_replicate hc
  have hafter : NotNext p (List.replicate (width - xs.length) ' ') := by
    intro c hc
    obtain rfl := hblanks c (List.mem_of_mem_head? hc)
    exact eq_false_of_isPySpace hp (by decide)
  have hend : captures (.seq (.star isPySpace) .eos)
      (List.replicate (width - xs.length) ' ' ++ []) = captures .eos [] :=
    captures_seq_star (fun c hc => by rw [hblanks c hc]; decide) nofun
      (fun c hc => rejects_eos (by rw [hblanks c hc]; decide))
  rw [List.append_nil] at hend
  rw [padRight, captures_seq_group_plus hxs hne hafter
    fun c hc => rejects_seq_star (hp c (hxs c hc)) (rejects_eos ?_), hend]
  · rfl
  · -- a newline is blank
    rintro rfl
    exact absurd (hp '\n' (hxs '\n' hc)) (by decide)

/-- What `%.3f` shows is made of digits and a point. -/
theorem isFloatChar_of_mem_fixed3 {n : ℕ} {c : Char} (h : c ∈ fixed3 n) :
    isFloatChar c = true := by
  have hdigit : ∀ m, isFloatChar (Nat.digitChar (m % 10)) = true := by
    intro m
    refine isFloatChar_of_isDigit ?_
    rw [Nat.isDigit_digitChar, decide_eq_true_iff]
    omega
  unfold fixed3 at h
  simp only [List.mem_append, List.mem_cons, List.not_mem_nil, or_false] at h
  obtain hwhole | rfl | rfl | rfl | rfl := h
  · exact isFloatChar_of_isDigit (isDigit_of_mem_decimal hwhole)
  · decide
  · exact hdigit _
  · exact hdigit _
  · exact hdigit _

theorem fixed3_ne_nil (n : ℕ) : fixed3 n ≠ [] :=
  List.append_ne_nil_of_right_ne_nil _ (List.cons_ne_nil _ _)

/-- Three digits stand for the number that they were made from. -/
theorem digitsValue_three (n : ℕ) :
    digitsValue [Nat.digitChar (n / 100 % 10), Nat.digitChar (n / 10 % 10),
      Nat.digitChar (n % 10)] = n % 1000 := by
  have hvalue : ∀ m, (Nat.digitChar (m % 10)).toNat - '0'.toNat = m % 10 := fun m =>
    Nat.toNat_digitChar_sub_48_of_lt_ten (Nat.mod_lt m (by decide))
  unfold digitsValue
  rw [Nat.ofDigitChars_eq_foldl]
  simp only [List.foldl_cons, List.foldl_nil, hvalue]
  omega

/-- A number is read as it was printed. -/
theorem pyFloat_fixed3 (n : ℕ) : pyFloat (fixed3 n) = some (.finite (n / 1000)) := by
  have hpoint : ∀ m, Nat.digitChar (m % 10) ≠ '.' := by
    intro m h
    have hdigit : (Nat.digitChar (m % 10)).isDigit = true := by
      rw [Nat.isDigit_digitChar, decide_eq_true_iff]
      omega
    rw [h] at hdigit
    exact absurd hdigit (by decide)
  have hfraction : '.' ∉ [Nat.digitChar (n / 100 % 10), Nat.digitChar (n / 10 % 10),
      Nat.digitChar (n % 10)] := by
    simp only [List.mem_cons, List.not_mem_nil, or_false, not_or]
    exact ⟨(hpoint _).symm, (hpoint _).symm, (hpoint _).symm⟩
  have hvalue : ((n / 1000 : ℕ) : ℚ) + ((n % 1000 : ℕ) : ℚ) / 10 ^ 3 = n / 1000 := by
    have hn : (n : ℚ) = 1000 * ((n / 1000 : ℕ) : ℚ) + ((n % 1000 : ℕ) : ℚ) := by
      exact_mod_cast (Nat.div_add_mod n 1000).symm
    rw [hn]
    ring
  unfold pyFloat fixed3
  rw [List.splitOn_append_cons_self_of_not_mem (not_mem_decimal (by decide) _),
    List.splitOn_eq_singleton hfraction]
  simp only [digitsValue_three, digitsValue_decimal, List.length_cons, List.length_nil]
  rw [← hvalue, if_neg (by simp)]

/-- A text that begins with a character of a number does not begin with a blank. -/
theorem notNext_padRight {xs : List Char} (hxs : ∀ c ∈ xs, isPySpace c = false) (hne : xs ≠ [])
    (width : ℕ) (rest : List Char) : NotNext isPySpace (padRight width xs ++ rest) := by
  intro c hc
  rw [padRight, List.append_assoc, List.head?_append_of_ne_nil _ hne] at hc
  exact hxs c (List.mem_of_mem_head? hc)

def PrintedFloat.isFinite : PrintedFloat → Bool
  | .finite _ => true
  | .inf | .nan _ => false

/-- The groups that a column of numbers adds to those of the rest of the row, if it matches. -/
def PrintedFloat.column (name : String) (groups : List (List (String × List Char))) :
    PrintedFloat → List (List (String × List Char))
  | .finite thousandths => groups.map ((name, fixed3 thousandths) :: ·)
  | .inf | .nan _ => []

theorem PrintedFloat.text_ne_nil (x : PrintedFloat) : x.text ≠ [] := by
  cases x with
  | finite n => exact fixed3_ne_nil n
  | inf => decide
  | nan negative =>
    cases negative with
    | false => decide
    | true => decide

theorem PrintedFloat.isPySpace_of_mem_text {x : PrintedFloat} {c : Char} (h : c ∈ x.text) :
    isPySpace c = false := by
  have hword : ∀ word : List Char, (word.all fun d => !isPySpace d) = true → c ∈ word →
      isPySpace c = false := by
    intro word hall hc
    have hnot := List.all_eq_true.mp hall c hc
    rwa [Bool.not_eq_true'] at hnot
  cases x with
  | finite n => exact isPySpace_of_isFloatChar (isFloatChar_of_mem_fixed3 h)
  | inf => exact hword "inf".toList (by decide) h
  | nan negative =>
    cases negative with
    | false => exact hword "nan".toList (by decide) h
    | true => exact hword "-nan".toList (by decide) h

/-- A word is not a number: its first character is neither a digit nor a point. -/
theorem captures_word {word : List Char} (hword : word.head?.map isFloatChar = some false)
    (name : String) (r : Regex) (width : ℕ) (rest : List Char) :
    captures (.seq (.group name (.plus isFloatChar)) r) (padRight width word ++ rest) = [] := by
  cases word with
  | nil => cases hword
  | cons c cs =>
    have hc : isFloatChar c = false := Option.some.inj hword
    exact Rejects.captures (Rejects.seq (Rejects.group (rejects_plus hc))) _

/-- The words that are printed in place of a number. -/
theorem PrintedFloat.captures_text {x : PrintedFloat} (hx : x.isFinite = false) (name : String)
    (r : Regex) (width : ℕ) (rest : List Char) :
    captures (.seq (.group name (.plus isFloatChar)) r) (padRight width x.text ++ rest) = [] := by
  refine captures_word ?_ name r width rest
  cases x with
  | finite n => cases hx
  | inf => decide
  | nan negative =>
    cases negative with
    | false => decide
    | true => decide

theorem captures_float {x : PrintedFloat} {rest : List Char} {r : Regex} {width : ℕ}
    (hnarrow : x.text.length < width) (hrest : NotNext isPySpace rest)
    (hr : ∀ c, isPySpace c = true → r.Rejects c) (name : String) :
    captures (.seq (.group name (.plus isFloatChar)) (.seq (.plus isPySpace) r))
        (padRight width x.text ++ rest) =
      x.column name (captures r rest) := by
  cases x with
  | finite n =>
    exact captures_column (fun c => isPySpace_of_isFloatChar)
      (fun c => isFloatChar_of_mem_fixed3) (fixed3_ne_nil n) hnarrow hrest hr name
  | inf => exact PrintedFloat.captures_text rfl name _ width rest
  | nan negative => exact PrintedFloat.captures_text rfl name _ width rest

theorem captures_last_float (x : PrintedFloat) (width : ℕ) (name : String) :
    captures (.seq (.group name (.plus isFloatChar)) (.seq (.star isPySpace) .eos))
        (padRight width x.text) =
      x.column name [[]] := by
  rw [← List.append_nil (padRight width x.text)]
  cases x with
  | finite n =>
    rw [List.append_nil]
    exact captures_last_column (fun c => isPySpace_of_isFloatChar)
      (fun c => isFloatChar_of_mem_fixed3) (fixed3_ne_nil n) name
  | inf => exact PrintedFloat.captures_text rfl name _ width []
  | nan negative => exact PrintedFloat.captures_text rfl name _ width []

/-- A group of numbers does not begin with a blank. -/
theorem rejects_group {p : Char → Bool} (hp : ∀ c, p c = true → isPySpace c = false)
    (name : String) (r : Regex) {c : Char} (hc : isPySpace c = true) :
    (Regex.seq (.group name (.plus p)) r).Rejects c :=
  Rejects.seq (Rejects.group (rejects_plus (eq_false_of_isPySpace hp hc)))

/-- The groups of a row. -/
theorem captures_rowRe (row : TableRow) : captures rowRe row.line =
    (row.timeMs.column "time_ms" (row.msgRate.column "msg_rate"
      (row.aggBw.column "agg_bw" [[]]))).map fun groups =>
        ("bytes", decimal row.bytes) :: ("iters", decimal row.iters) ::
          ("ops", decimal row.ops) :: groups := by
  have hdigits : ∀ n, ∀ c ∈ decimal n, c.isDigit = true := fun n c hc => isDigit_of_mem_decimal hc
  have hspace : ∀ n, ∀ c ∈ decimal n, isPySpace c = false :=
    fun n c hc => isPySpace_of_isDigit (hdigits n c hc)
  unfold rowRe TableRow.line
  -- column after column, each with what the row goes on with and why a blank does not begin it
  rw [captures_seq_star_of_notNext
      (notNext_padRight (hspace row.bytes) (decimal_ne_nil row.bytes) 12 _),
    captures_column (fun c => isPySpace_of_isDigit) (hdigits row.bytes)
      (decimal_ne_nil row.bytes) row.bytes_narrow
      (notNext_padRight (hspace row.iters) (decimal_ne_nil row.iters) 14 _)
      (fun c hc => rejects_group (fun c => isPySpace_of_isDigit) _ _ hc),
    captures_column (fun c => isPySpace_of_isDigit) (hdigits row.iters)
      (decimal_ne_nil row.iters) row.iters_narrow
      (notNext_padRight (hspace row.ops) (decimal_ne_nil row.ops) 14 _)
      (fun c hc => rejects_group (fun c => isPySpace_of_isDigit) _ _ hc),
    captures_column (fun c => isPySpace_of_isDigit) (hdigits row.ops)
      (decimal_ne_nil row.ops) row.ops_narrow
      (notNext_padRight (fun c => PrintedFloat.isPySpace_of_mem_text) row.timeMs.text_ne_nil 14 _)
      (fun c hc => rejects_group (fun c => isPySpace_of_isFloatChar) _ _ hc),
    captures_float row.timeMs_narrow
      (notNext_padRight (fun c => PrintedFloat.isPySpace_of_mem_text) row.msgRate.text_ne_nil 16 _)
      (fun c hc => rejects_group (fun c => isPySpace_of_isFloatChar) _ _ hc),
    captures_float row.msgRate_narrow ?_
      (fun c hc => rejects_group (fun c => isPySpace_of_isFloatChar) _ _ hc),
    captures_last_float]
  · rw [List.map_map, List.map_map]
    rfl
  · have h := notNext_padRight (fun c => PrintedFloat.isPySpace_of_mem_text)
      row.aggBw.text_ne_nil 22 []
    rwa [List.append_nil] at h

/-! ### Lines that do not match -/

/-- A line that begins like a number, a parameter line or the headings is not the line of a run. -/
theorem runRe_rejects {c : Char} (h : ('-' == c) = false) : runRe.Rejects c :=
  Rejects.seq (rejects_text (p := fun d => d == c) (congrArg some h) (beq_self_eq_true c))

theorem benchRe_rejects {c : Char} (h : (c.toLower == '#') = false) : benchRe.Rejects c :=
  Rejects.seq (rejects_chars (q := fun d => d.toLower == '#') h [])

theorem rowRe_rejects {c : Char} (hspace : isPySpace c = false) (hdigit : c.isDigit = false) :
    rowRe.Rejects c :=
  rejects_seq_star hspace (Rejects.seq (Rejects.group (rejects_plus hdigit)))

/-- Nothing but digits is compared with what is not a letter. -/
theorem digit_ne {c : Char} (h : c.isDigit = true) :
    ('-' == c) = false ∧ (c.toLower == '#') = false := by
  rw [isDigit_iff] at h
  -- there are ten digits
  have hall : ∀ n ≤ 57, 48 ≤ n →
      ('-' == Char.ofNat n) = false ∧ ((Char.ofNat n).toLower == '#') = false := by decide
  rw [← Char.ofNat_toNat c]
  exact hall c.toNat h.2 h.1

/-- A row begins with a digit. -/
theorem head_row {row : TableRow} {c : Char} (h : c ∈ row.line.head?) : c.isDigit = true := by
  unfold TableRow.line padRight at h
  rw [List.append_assoc, List.head?_append_of_ne_nil _ (decimal_ne_nil row.bytes)] at h
  exact isDigit_of_mem_decimal (List.mem_of_mem_head? h)

theorem row_ne_nil (row : TableRow) : row.line ≠ [] := by
  unfold TableRow.line padRight
  rw [List.append_assoc]
  exact List.append_ne_nil_of_left_ne_nil (decimal_ne_nil row.bytes) _

/-- A line that matches nothing is skipped. -/
theorem parseLine_skip {line : List Char} (hrun : runRe.match? line = none)
    (hbench : benchRe.match? line = none) (hrow : rowRe.match? line = none) (file : List Char)
    (st : ParseState) : parseLine file st line = some st := by
  unfold parseLine
  simp only [hrun, hbench, hrow]

theorem parseLine_parameter (file : List Char) (st : ParseState) (mode : BenchMode)
    (line : ParameterLine) : parseLine file st (line.line mode) = some st := by
  cases line with
  | parameters iterations minShift maxShift peersPerRank useGpu gpuDevice =>
    -- neither a run, a header nor a row
    refine parseLine_skip ?_ ?_ ?_ file st
    · refine match?_of_rejects ?_ nofun
      rintro c ⟨⟩
      exact runRe_rejects (by decide)
    · -- `rdma` is not what comes after the blank
      rfl
    · refine match?_of_rejects ?_ nofun
      rintro c ⟨⟩
      exact rowRe_rejects (by decide) (by decide)
  | headings =>
    have hhead : (headingLine mode).head? = some 'b' := by
      cases mode with
      | read => rfl
      | write => rfl
      | writedata => rfl
    have hne : headingLine mode ≠ [] := by
      intro h
      rw [h] at hhead
      cases hhead
    show parseLine file st (headingLine mode) = some st
    -- the headings begin with a `b`, which none of the three patterns does
    refine parseLine_skip ?_ ?_ ?_ file st
    · refine match?_of_rejects ?_ hne
      rw [hhead]
      rintro c ⟨⟩
      exact runRe_rejects (by decide)
    · refine match?_of_rejects ?_ hne
      rw [hhead]
      rintro c ⟨⟩
      exact benchRe_rejects (by decide)
    · refine match?_of_rejects ?_ hne
      rw [hhead]
      rintro c ⟨⟩
      exact rowRe_rejects (by decide) (by decide)

/-- The header line is read in every mode: an alternative that is the beginning of another does not
match the whole line. -/
theorem parseLine_header (file : List Char) (st : ParseState) (mode : BenchMode) :
    parseLine file st (headerLine mode) = some { st with currentBench := some mode.name } := by
  cases mode with
  | read => rfl
  | write => rfl
  | writedata => rfl

/-! ### The record of a row -/

/-- A number as it was printed. -/
def PrintedFloat.value : PrintedFloat → PyFloat
  | .finite thousandths => .finite (thousandths / 1000)
  | .inf => .inf
  | .nan _ => .nan

/-- Whether the elapsed time of a row was not 0. -/
def TableRow.isFinite (row : TableRow) : Bool :=
  row.timeMs.isFinite && row.msgRate.isFinite && row.aggBw.isFinite

/-- The record for a row. -/
def TableRow.record (file bench : List Char) (run : Run) (row : TableRow) : Record where
  file := file
  benchmark := bench
  run := run
  bytes := row.bytes
  iters := row.iters
  ops := row.ops
  timeMs := row.timeMs.value
  msgRateMps := row.msgRate.value
  aggBwMbS := row.aggBw.value

/-- The groups of a row by name. -/
theorem groupText_row (bytes iters ops time rate bandwidth : List Char) :
    let groups := [("bytes", bytes), ("iters", iters), ("ops", ops), ("time_ms", time),
      ("msg_rate", rate), ("agg_bw", bandwidth)]
    groupText groups "bytes" = bytes ∧ groupText groups "iters" = iters ∧
      groupText groups "ops" = ops ∧ groupText groups "time_ms" = time ∧
      groupText groups "msg_rate" = rate ∧ groupText groups "agg_bw" = bandwidth :=
  ⟨rfl, rfl, rfl, rfl, rfl, rfl⟩

/-- A row of finite numbers is recorded, and any other is skipped. -/
theorem parseLine_row {file bench : List Char} {st : ParseState} {run : Run}
    (hrun : st.currentRun = some run)
    (hbench : st.currentBench.or (maybeBenchmarkFromFilename file) = some bench)
    (row : TableRow) :
    parseLine file st row.line = some (if row.isFinite
      then { st with rows := st.rows ++ [row.record file bench run] } else st) := by
  have hnotRun : runRe.match? row.line = none :=
    match?_of_rejects (fun c hc => runRe_rejects (digit_ne (head_row hc)).1) (row_ne_nil row)
  have hnotBench : benchRe.match? row.line = none :=
    match?_of_rejects (fun c hc => benchRe_rejects (digit_ne (head_row hc)).2) (row_ne_nil row)
  have hmatch := congrArg List.head? (captures_rowRe row)
  rw [← match?] at hmatch
  unfold parseLine
  simp only [hnotRun, hnotBench, hmatch, hrun, hbench]
  unfold TableRow.isFinite TableRow.record readRow
  -- a column that is no number leaves no match, whatever the others are
  cases row.timeMs with
  | inf => rfl
  | nan negative => rfl
  | finite time =>
    cases row.msgRate with
    | inf => rfl
    | nan negative => rfl
    | finite rate =>
      cases row.aggBw with
      | inf => rfl
      | nan negative => rfl
      | finite bandwidth =>
        obtain ⟨hbytes, hiters, hops, htime, hrate, hbandwidth⟩ :=
          groupText_row (decimal row.bytes) (decimal row.iters) (decimal row.ops) (fixed3 time)
            (fixed3 rate) (fixed3 bandwidth)
        simp only [PrintedFloat.column, PrintedFloat.isFinite, PrintedFloat.value, List.map_cons,
          List.map_nil, List.head?_cons, hbytes, hiters, hops, htime, hrate, hbandwidth,
          pyFloat_fixed3, digitsValue_decimal, Option.bind_eq_bind, Option.bind_some,
          Option.pure_def, Bool.and_self, if_true]

/-! ### The name of the log -/

/-- The benchmark that the name of a log stands for. -/
def BenchMode.fallback : BenchMode → BenchMode
  | .read => .read
  -- `-lfb-write` comes first, and is in the name of a `writedata` log too.
  | .write | .writedata => .write

/-- The letter `b` is in the name once, before the mode. -/
theorem infix_logFileName_iff (mode : BenchMode) (gpuMode : Bool) (nodes jobId : ℕ)
    (bench : List Char) :
    "-lfb-".toList ++ bench <:+: logFileName mode gpuMode nodes jobId ↔
      bench <+: mode.name ++ ((if gpuMode then "-gpu" else "").toList ++ ("-N".toList ++
        (decimal nodes ++ ("-".toList ++ (decimal jobId ++ ".out".toList))))) := by
  have hmode : 'b' ∉ mode.name := by
    cases mode with
    | read => decide
    | write => decide
    | writedata => decide
  have hsuffix : 'b' ∉ (if gpuMode then "-gpu" else "").toList := by
    cases gpuMode with
    | true => decide
    | false => decide
  -- so that what is looked for, which has a `b`, can occur there only
  have hafter : 'b' ∉ '-' :: (mode.name ++ ((if gpuMode then "-gpu" else "").toList ++
      ("-N".toList ++ (decimal nodes ++ ("-".toList ++ (decimal jobId ++ ".out".toList)))))) := by
    simp only [List.mem_cons, List.mem_append, not_or]
    exact ⟨by decide, hmode, hsuffix, by decide, not_mem_decimal (by decide) nodes, by decide,
      not_mem_decimal (by decide) jobId, by decide⟩
  have hname := infix_iff_of_notMem (u := ['-', 'l', 'f']) (v := '-' :: bench)
    (x := "slurm-lf".toList) (by decide) hafter
  rw [List.cons_prefix_cons] at hname
  refine Iff.trans ?_ (hname.trans ?_)
  · rfl
  · exact ⟨fun h => h.2.2, fun h => ⟨⟨"slurm".toList, rfl⟩, rfl, h⟩⟩

theorem maybeBenchmarkFromFilename_logFileName (mode : BenchMode) (gpuMode : Bool)
    (nodes jobId : ℕ) :
    maybeBenchmarkFromFilename (logFileName mode gpuMode nodes jobId) =
      some mode.fallback.name := by
  unfold maybeBenchmarkFromFilename
  simp only [infix_logFileName_iff]
  cases mode with
  | read => rfl
  | write => rfl
  | writedata => rfl

/-! ### The lines of the log -/

theorem isUnbroken_decimal (n : ℕ) : isUnbroken (decimal n) = true := by
  rw [isUnbroken, List.all_eq_true]
  intro c hc
  have hdigit := (isDigit_iff c).mp (isDigit_of_mem_decimal hc)
  unfold isLineBreak
  simp
  omega

theorem PrintedFloat.isUnbroken_text (x : PrintedFloat) : isUnbroken x.text = true := by
  cases x with
  | finite n =>
    rw [isUnbroken, List.all_eq_true]
    intro c hc
    have hfloat := isFloatChar_of_mem_fixed3 hc
    unfold isFloatChar at hfloat
    rw [Bool.or_eq_true, beq_iff_eq, isDigit_iff] at hfloat
    obtain hdigit | rfl := hfloat
    · unfold isLineBreak
      simp
      omega
    · decide
  | inf => rfl
  | nan negative =>
    cases negative with
    | false => rfl
    | true => rfl

theorem isUnbroken_lines (mode : BenchMode) (block : RunBlock) :
    ∀ line ∈ block.lines mode, isUnbroken line = true := by
  have hrun : isUnbroken block.run.line = true := by
    unfold Run.line
    simp only [isUnbroken_append, isUnbroken_decimal, Bool.true_and]
    decide
  have hheader : isUnbroken (headerLine mode) = true := by
    cases mode with
    | read => rfl
    | write => rfl
    | writedata => rfl
  have hparameter : ∀ line : ParameterLine, isUnbroken (line.line mode) = true := by
    intro line
    cases line with
    | parameters iterations minShift maxShift peersPerRank useGpu gpuDevice =>
      unfold ParameterLine.line
      simp only [isUnbroken_append, isUnbroken_decimal, Bool.true_and, Bool.and_true]
      cases useGpu with
      | true => decide
      | false => decide
    | headings =>
      cases mode with
      | read => rfl
      | write => rfl
      | writedata => rfl
  have hrow : ∀ row : TableRow, isUnbroken row.line = true := by
    intro row
    unfold TableRow.line
    simp only [isUnbroken_append, isUnbroken_padRight, isUnbroken_decimal,
      PrintedFloat.isUnbroken_text, Bool.true_and]
  -- a block is its run, its header and the lines that follow
  intro line hline
  unfold RunBlock.lines at hline
  rw [List.mem_cons, List.mem_append, List.mem_append, List.mem_map, List.mem_map] at hline
  obtain rfl | hline | ⟨parameter, -, rfl⟩ | ⟨row, -, rfl⟩ := hline
  · exact hrun
  · split at hline
    · obtain rfl := List.mem_singleton.mp hline
      exact hheader
    · cases hline
  · exact hparameter parameter
  · exact hrow row

/-- The benchmark that the rows of a block are recorded under. -/
def RunBlock.bench (mode : BenchMode) (block : RunBlock) : BenchMode :=
  if block.header then mode else mode.fallback

/-- The records of a block as it was written: one for each row. -/
def RunBlock.records (file : List Char) (mode : BenchMode) (block : RunBlock) : List Record :=
  block.rows.map (TableRow.record file mode.name block.run)

/-- The records of a block as it is read. -/
def RunBlock.parsed (file : List Char) (mode : BenchMode) (block : RunBlock) : List Record :=
  (block.rows.filter TableRow.isFinite).map
    (TableRow.record file (block.bench mode).name block.run)

theorem foldlM_parameters (file : List Char) (st : ParseState) (mode : BenchMode)
    (lines : List ParameterLine) :
    (lines.map (ParameterLine.line mode)).foldlM (parseLine file) st = some st := by
  induction lines with
  | nil => rfl
  | cons line lines ih =>
    rw [List.map_cons, List.foldlM_cons, parseLine_parameter]
    exact ih

theorem foldlM_rows {file bench : List Char} {run : Run} {st : ParseState}
    (hrun : st.currentRun = some run)
    (hbench : st.currentBench.or (maybeBenchmarkFromFilename file) = some bench)
    (rows : List TableRow) :
    (rows.map TableRow.line).foldlM (parseLine file) st = some
      { st with rows :=
          st.rows ++ (rows.filter TableRow.isFinite).map (TableRow.record file bench run) } := by
  induction rows generalizing st with
  | nil => simp
  | cons row rows ih =>
    rw [List.map_cons, List.foldlM_cons, parseLine_row hrun hbench row]
    by_cases hfinite : row.isFinite = true
    · -- the record comes after those there are, and the others after it
      rw [if_pos hfinite, List.filter_cons_of_pos hfinite]
      have hrest := @ih { st with rows := st.rows ++ [row.record file bench run] } hrun hbench
      refine hrest.trans ?_
      rw [List.map_cons, List.append_assoc, List.singleton_append]
    · rw [if_neg hfinite, List.filter_cons_of_neg hfinite]
      exact ih hrun hbench

/-- A block is read from any state: its first line sets aside what came before. -/
theorem foldlM_block {file : List Char} {mode : BenchMode}
    (hfile : maybeBenchmarkFromFilename file = some mode.fallback.name) (st : ParseState)
    (block : RunBlock) :
    ∃ bench, (block.lines mode).foldlM (parseLine file) st =
      some ⟨some block.run, bench, st.rows ++ block.parsed file mode⟩ := by
  unfold RunBlock.lines RunBlock.parsed RunBlock.bench
  rw [List.foldlM_cons, parseLine_run, Option.bind_eq_bind, Option.bind_some]
  by_cases hheader : block.header = true
  · have hbench : (some mode.name).or (maybeBenchmarkFromFilename file) = some mode.name :=
      Option.some_or
    rw [if_pos hheader, if_pos hheader, List.singleton_append, List.foldlM_cons, parseLine_header,
      Option.bind_eq_bind, Option.bind_some, List.foldlM_append, foldlM_parameters,
      Option.bind_eq_bind, Option.bind_some]
    have hrows := @foldlM_rows file mode.name block.run ⟨some block.run, some mode.name, st.rows⟩
      rfl hbench block.rows
    exact ⟨some mode.name, hrows⟩
  · have hbench : (none : Option (List Char)).or (maybeBenchmarkFromFilename file) =
        some mode.fallback.name := by rw [Option.none_or, hfile]
    rw [if_neg hheader, if_neg hheader, List.nil_append, List.foldlM_append, foldlM_parameters,
      Option.bind_eq_bind, Option.bind_some]
    have hrows := @foldlM_rows file mode.fallback.name block.run ⟨some block.run, none, st.rows⟩
      rfl hbench block.rows
    exact ⟨none, hrows⟩

theorem foldlM_blocks {file : List Char} {mode : BenchMode}
    (hfile : maybeBenchmarkFromFilename file = some mode.fallback.name) (st : ParseState)
    (blocks : List RunBlock) :
    ∃ run bench, (blocks.flatMap (RunBlock.lines mode)).foldlM (parseLine file) st =
      some ⟨run, bench, st.rows ++ blocks.flatMap (RunBlock.parsed file mode)⟩ := by
  induction blocks generalizing st with
  | nil => exact ⟨st.currentRun, st.currentBench, by simp⟩
  | cons block blocks ih =>
    obtain ⟨bench, hblock⟩ := foldlM_block hfile st block
    obtain ⟨run', bench', hblocks⟩ :=
      ih ⟨some block.run, bench, st.rows ++ block.parsed file mode⟩
    refine ⟨run', bench', ?_⟩
    rw [List.flatMap_cons, List.foldlM_append, hblock, List.flatMap_cons, ← List.append_assoc]
    exact hblocks

/-- What is read from a log: the rows of finite numbers, under the benchmark of the header or, if
that was lost, of the name. -/
theorem parseFile_logText (mode : BenchMode) (gpuMode : Bool) (nodes jobId : ℕ)
    (blocks : List RunBlock) :
    parseFile (logFileName mode gpuMode nodes jobId) (logText mode blocks) =
      some (blocks.flatMap (RunBlock.parsed (logFileName mode gpuMode nodes jobId) mode)) := by
  have hlines : ∀ line ∈ blocks.flatMap (RunBlock.lines mode), isUnbroken line = true := by
    intro line hline
    obtain ⟨block, -, hmem⟩ := List.mem_flatMap.mp hline
    exact isUnbroken_lines mode block line hmem
  obtain ⟨run, bench, hblocks⟩ := foldlM_blocks
    (maybeBenchmarkFromFilename_logFileName mode gpuMode nodes jobId) ⟨none, none, []⟩ blocks
  unfold parseFile logText
  rw [splitLines_unlines hlines, hblocks]
  rfl

/-- The rows of a block are read back as they were written when all numbers are finite and the
benchmark is right. -/
theorem RunBlock.parsed_eq_records_iff (file : List Char) (mode : BenchMode) (block : RunBlock) :
    block.parsed file mode = block.records file mode ↔
      (∀ row ∈ block.rows, row.isFinite = true) ∧
        (mode = .writedata → block.header = false → block.rows = []) := by
  unfold RunBlock.parsed RunBlock.records
  constructor
  · intro h
    have hlength := congrArg List.length h
    rw [List.length_map, List.length_map] at hlength
    have hall : ∀ row ∈ block.rows, row.isFinite = true :=
      List.length_filter_eq_length_iff.mp hlength
    refine ⟨hall, ?_⟩
    rintro rfl hheader
    -- the first row would be recorded as one of `write`
    rw [List.filter_eq_self.mpr hall] at h
    cases hrows : block.rows with
    | nil => rfl
    | cons row rows =>
      have hbench : block.bench .writedata = BenchMode.fallback .writedata := by
        unfold RunBlock.bench
        rw [hheader]
        rfl
      rw [hrows, hbench, List.map_cons, List.map_cons] at h
      have hname : (BenchMode.fallback .writedata).name = BenchMode.writedata.name :=
        congrArg Record.benchmark (List.cons_eq_cons.mp h).1
      exact absurd hname (by decide)
  · rintro ⟨hall, hheader⟩
    rw [List.filter_eq_self.mpr hall]
    by_cases hlost : mode = .writedata ∧ block.header = false
    · -- there is no row to be recorded
      rw [hheader hlost.1 hlost.2]
      rfl
    · -- the header gives the mode, or the name of the log does
      have hbench : block.bench mode = mode := by
        unfold RunBlock.bench
        cases mode with
        | read => exact ite_self _
        | write => exact ite_self _
        | writedata =>
          rw [if_pos]
          rw [← Bool.not_eq_false]
          exact fun h => hlost ⟨rfl, h⟩
      rw [hbench]

/-- For every mode, file name and sequence of run blocks, with or without their header lines: the
log is read back as it was written, one record for each row, in order, with the parameters of its
run and the mode of the log, if and only if all numbers in the rows are finite and, for `writedata`,
no row comes after a header line that was lost. -/
theorem parseFile_logText_iff (mode : BenchMode) (gpuMode : Bool) (nodes jobId : ℕ)
    (blocks : List RunBlock) :
    parseFile (logFileName mode gpuMode nodes jobId) (logText mode blocks) =
        some (blocks.flatMap (RunBlock.records (logFileName mode gpuMode nodes jobId) mode)) ↔
      (∀ block ∈ blocks, ∀ row ∈ block.rows, row.isFinite = true) ∧
        (mode = .writedata → ∀ block ∈ blocks, block.header = false → block.rows = []) := by
  have hle : ∀ block : RunBlock,
      (block.parsed (logFileName mode gpuMode nodes jobId) mode).length ≤
        (block.records (logFileName mode gpuMode nodes jobId) mode).length := by
    intro block
    unfold RunBlock.parsed RunBlock.records
    rw [List.length_map, List.length_map]
    exact List.length_filter_le _ _
  rw [parseFile_logText, Option.some.injEq, Lists.flatMap_eq_flatMap_iff hle]
  simp only [RunBlock.parsed_eq_records_iff]
  constructor
  · intro h
    exact ⟨fun block hblock => (h block hblock).1,
      fun hmode block hblock => (h block hblock).2 hmode⟩
  · rintro ⟨hfinite, hheader⟩ block hblock
    exact ⟨hfinite block hblock, fun hmode => hheader hmode block hblock⟩

/-- A `writedata` log of one run whose header line was lost, with one row. -/
def lostHeader : RunBlock where
  run := ⟨2, 1, 2, 0, 0⟩
  header := false
  parameters := [.parameters 10000 0 20 1 false 0, .headings]
  rows := [⟨1, 10000, 20000, .finite 12345, .finite 1620, .finite 1620, by decide, by decide,
    by decide, by decide, by decide⟩]

/-- The row is recorded as one of the `write` benchmark. -/
theorem lostHeader_write :
    ((parseFile (logFileName .writedata false 2 12345) (logText .writedata [lostHeader])).map
        fun records => records.map Record.benchmark) = some ["write".toList] ∧
      parseFile (logFileName .writedata false 2 12345) (logText .writedata [lostHeader]) ≠
        some ([lostHeader].flatMap
          (RunBlock.records (logFileName .writedata false 2 12345) .writedata)) := by
  have hparsed := parseFile_logText .writedata false 2 12345 [lostHeader]
  have hwrite : ((parseFile (logFileName .writedata false 2 12345)
      (logText .writedata [lostHeader])).map fun records => records.map Record.benchmark) =
        some ["write".toList] := by
    rw [hparsed]
    rfl
  refine ⟨hwrite, fun hread => ?_⟩
  rw [hread] at hwrite
  exact absurd hwrite (by decide)

end LibFatbat
