import LibFatbat.Collective.Buffers
import LibFatbat.Communicator.Throttle
import LibFatbat.Communicator.Waiting

/-!
# The loops of the benchmarks

Each of the four benchmarks posts a warm-up and then a timed series of operations for every message
size, in the scope of a poller guard. Before a series it reads the posted counters, and from them it
computes the values that it then waits for, in 32 bits; after the timed series it compares how far
the complete counters have come with what it has posted, and throws if they differ.

The model is one rank: the main thread, and threads that poll. The fences, and the rounds of signals
at the end of a message size, are about other ranks; they only let the main thread go on. An
exception would end the program, so none is thrown but the ones of the loop itself.

`BenchThread.Sound` is what the main thread knows at each place of its loops about the counters and
about what is in flight; each step keeps it (`BenchStep.sound`).
-/

open Concurrent

namespace LibFatbat

/-- The benchmarks of `test/pmi`. -/
inductive Benchmark
  | sendRecv
  | rdmaRead
  | rdmaWrite
  | rdmaWritedata

namespace Benchmark

/-- The throttle function called before each post. -/
def throttle : Benchmark → ThrottleFunction
  | sendRecv => .throttleMsgsInflight
  | rdmaRead => .throttleReadsInflight
  | rdmaWrite | rdmaWritedata => .throttleWritesInflight

/-- What is posted then, to the same peer. -/
def posts : Benchmark → List Func
  | sendRecv => [.recv, .send]
  | rdmaRead => [.read]
  | rdmaWrite => [.write]
  | rdmaWritedata => [.writeData]

/-- The kinds whose counters the benchmark reads, in the order of the conditions. -/
def kinds (b : Benchmark) : List Kind := b.throttle.kinds

theorem exists_mem_kinds (b : Benchmark) : ∃ k, k ∈ b.kinds := by
  cases b <;> exact ⟨_, List.mem_cons_self ..⟩

/-- Whether the length of the remote region is checked before each post. -/
def checksKeys : Benchmark → Bool
  | sendRecv => false
  | rdmaRead | rdmaWrite | rdmaWritedata => true

/-- Whether the ranks signal to each other at the end of a message size. -/
def signals : Benchmark → Bool
  | sendRecv | rdmaRead => false
  | rdmaWrite | rdmaWritedata => true

end Benchmark

/-- A run of a benchmark by one of the ranks, past the checks of the arguments. -/
structure BenchSetup where
  benchmark : Benchmark
  rank : ℕ
  size : ℕ
  iterations : ℕ
  minShift : ℕ
  maxShift : ℕ
  /-- The lengths in the keys received from the ranks. -/
  keyLength : ℕ → ℕ
  rank_lt : rank < size
  two_le_size : 2 ≤ size
  size_eq_two : benchmark = .sendRecv → size = 2
  iterations_pos : 0 < iterations
  minShift_le : minShift ≤ maxShift

namespace BenchSetup

/-- `max_inflight_msgs`, `max_inflight_reads` and `max_inflight_writes`. -/
def maxInflight : BitVec 32 := 128#32

/-- `iterations`, or `warmup_iterations`. -/
def numIterations (b : BenchSetup) (timed : Bool) : ℕ := if timed then b.iterations else 1

/-- The peers that a series posts to, in order. -/
def series (b : BenchSetup) (timed : Bool) : List ℕ :=
  (List.replicate (b.numIterations timed) (otherRanks b.rank b.size)).flatten

/-- `expected_reads` and its like, a `size_t`. -/
def expected (b : BenchSetup) (timed : Bool) : BitVec 64 :=
  BitVec.ofNat 64 (b.numIterations timed) * BitVec.ofNat 64 (b.size - 1)

/-- The target of the wait for a counter that had the value `before`. -/
def target (b : BenchSetup) (timed : Bool) (before : BitVec 32) : BitVec 32 :=
  before + (b.expected timed).setWidth 32

end BenchSetup

/-- Where the main thread is, in the loop over the message sizes. -/
inductive BenchPc
  /-- Not the main thread: it polls. -/
  | poller
  /-- At the fence before a series. -/
  | fence (timed : Bool)
  /-- Reading the counters of `kinds`; the complete counter of the first has been read, or is not
  needed. -/
  | before (timed : Bool) (kinds : List Kind) (completeRead : Bool)
  /-- At a post to the first of `peers`. -/
  | post (timed : Bool) (peers : List ℕ)
  | invalidKey
  /-- In the throttle function. -/
  | throttle (timed : Bool) (peer : ℕ) (peers : List ℕ) (loop : ThrottlePc)
  /-- At the calls to `peer`, of which `funcs` are left. -/
  | calls (timed : Bool) (peer : ℕ) (funcs : List Func) (peers : List ℕ)
  /-- In the condition of the loop that waits, at the first of `kinds`. -/
  | wait (timed : Bool) (kinds : List Kind)
  /-- At the fence after the timed series. -/
  | fenceAfter
  /-- Comparing what is done of `kinds` with what was expected. -/
  | check (kinds : List Kind)
  | counterMismatch
  | signal
  | signalWait (target : BitVec 32)
  /-- Waiting for the signals of the other ranks. -/
  | remote
  | done

/-- A thread of the benchmark, with the variables of the loop. -/
structure BenchThread where
  stack : List Frame
  pc : BenchPc
  bitshift : ℕ
  /-- `reads_complete_before` and its like. -/
  completeBefore : Kind → BitVec 32
  /-- `reads_posted_before` and its like, of the timed series or the warm-up. -/
  postedBefore : Kind → BitVec 32

/-- The steps of a thread of the benchmark. -/
inductive BenchStep (cfg : Setup) (b : BenchSetup) (i : ℕ) :
    Shared → BenchThread → Shared → BenchThread → Prop
  -- In a call. No callback is passed, and there is none for remote data: the code that runs in the
  -- place of the user's returns.
  | run {s s' : Shared} {l : BenchThread} {stack' : List Frame} (hcall : l.stack ≠ [.main])
      (h : RunStep cfg i s l.stack s' stack')
      (hreturns : ∀ f ∈ l.stack.head?, f.isUser → stack'.length ≤ l.stack.length) :
      BenchStep cfg b i s l s' { l with stack := stack' }
  | poll {s : Shared} {l : BenchThread} (hpc : l.pc = .poller) (hstack : l.stack = [.main]) :
      BenchStep cfg b i s l s { l with stack := [.polling .trySendLock, .main] }
  | enter {s : Shared} {l : BenchThread} {timed : Bool} (hpc : l.pc = .fence timed) :
      BenchStep cfg b i s l s { l with pc := .before timed b.benchmark.kinds (!timed) }
  | readComplete {s : Shared} {l : BenchThread} {timed : Bool} {k : Kind} {ks : List Kind}
      (hpc : l.pc = .before timed (k :: ks) false) :
      BenchStep cfg b i s l s
        { l with pc := .before timed (k :: ks) true
                 completeBefore := Function.update l.completeBefore k (s.core.complete k) }
  | readPosted {s : Shared} {l : BenchThread} {timed : Bool} {k : Kind} {ks : List Kind}
      (hpc : l.pc = .before timed (k :: ks) true) :
      BenchStep cfg b i s l s
        { l with pc := .before timed ks (!timed)
                 postedBefore := Function.update l.postedBefore k (s.core.posted k) }
  -- `t0`, for the timed series.
  | begin {s : Shared} {l : BenchThread} {timed completeRead : Bool}
      (hpc : l.pc = .before timed [] completeRead) :
      BenchStep cfg b i s l s { l with pc := .post timed (b.series timed) }
  | invalid {s : Shared} {l : BenchThread} {timed : Bool} {peer : ℕ} {peers : List ℕ}
      (hpc : l.pc = .post timed (peer :: peers)) (hkeys : b.benchmark.checksKeys)
      (hlength : b.keyLength peer < 2 ^ l.bitshift) :
      BenchStep cfg b i s l s { l with pc := .invalidKey }
  | valid {s : Shared} {l : BenchThread} {timed : Bool} {peer : ℕ} {peers : List ℕ}
      (hpc : l.pc = .post timed (peer :: peers))
      (hlength : b.benchmark.checksKeys → ¬ b.keyLength peer < 2 ^ l.bitshift) :
      BenchStep cfg b i s l s
        { l with pc := .throttle timed peer peers (.start b.benchmark.kinds) }
  | throttle {s : Shared} {l : BenchThread} {timed : Bool} {peer : ℕ} {peers : List ℕ}
      {loop loop' : ThrottlePc} (hpc : l.pc = .throttle timed peer peers loop)
      (h : ThrottleStep cfg b.benchmark.throttle BenchSetup.maxInflight i i
        s ⟨l.stack, some loop, fun _ => false⟩ s ⟨l.stack, some loop', fun _ => false⟩) :
      BenchStep cfg b i s l s { l with pc := .throttle timed peer peers loop' }
  | throttled {s : Shared} {l : BenchThread} {timed : Bool} {peer : ℕ} {peers : List ℕ}
      {loop : ThrottlePc} (hpc : l.pc = .throttle timed peer peers loop)
      (h : ThrottleStep cfg b.benchmark.throttle BenchSetup.maxInflight i i
        s ⟨l.stack, some loop, fun _ => false⟩ s ⟨l.stack, none, (· ∈ b.benchmark.kinds)⟩) :
      BenchStep cfg b i s l s { l with pc := .calls timed peer b.benchmark.posts peers }
  | call {s s' : Shared} {l : BenchThread} {timed : Bool} {peer : ℕ} {func : Func}
      {funcs : List Func} {peers : List ℕ} {x : Call}
      (hpc : l.pc = .calls timed peer (func :: funcs) peers) (hstack : l.stack = [.main])
      (hfunc : x.func = func) (hpeer : x.peer = BitVec.ofNat 64 peer)
      (hsize : x.size = 2 ^ l.bitshift) (hcallback : x.hasCallback = false)
      (h : FrameStep cfg i s .main s' [.posting x x.func.entry, .main]) :
      BenchStep cfg b i s l s'
        { l with stack := [.posting x x.func.entry, .main]
                 pc := .calls timed peer funcs peers }
  | next {s : Shared} {l : BenchThread} {timed : Bool} {peer : ℕ} {peers : List ℕ}
      (hpc : l.pc = .calls timed peer [] peers) (hstack : l.stack = [.main]) :
      BenchStep cfg b i s l s { l with pc := .post timed peers }
  | posted {s : Shared} {l : BenchThread} {timed : Bool} (hpc : l.pc = .post timed []) :
      BenchStep cfg b i s l s { l with pc := .wait timed b.benchmark.kinds }
  -- An operand of `||` is true, or false.
  | waitAgain {s : Shared} {l : BenchThread} {timed : Bool} {k : Kind} {ks : List Kind}
      (hpc : l.pc = .wait timed (k :: ks))
      (hlt : s.core.complete k < b.target timed (l.postedBefore k)) :
      BenchStep cfg b i s l s { l with pc := .wait timed b.benchmark.kinds }
  | waitNext {s : Shared} {l : BenchThread} {timed : Bool} {k : Kind} {ks : List Kind}
      (hpc : l.pc = .wait timed (k :: ks))
      (hle : ¬ s.core.complete k < b.target timed (l.postedBefore k)) :
      BenchStep cfg b i s l s { l with pc := .wait timed ks }
  | waited {s : Shared} {l : BenchThread} {timed : Bool} (hpc : l.pc = .wait timed []) :
      BenchStep cfg b i s l s { l with pc := if timed then .fenceAfter else .fence true }
  -- `t1`.
  | leave {s : Shared} {l : BenchThread} (hpc : l.pc = .fenceAfter) :
      BenchStep cfg b i s l s { l with pc := .check b.benchmark.kinds }
  | differ {s : Shared} {l : BenchThread} {k : Kind} {ks : List Kind}
      (hpc : l.pc = .check (k :: ks))
      (hne : (s.core.complete k - l.completeBefore k).setWidth 64 ≠ b.expected true) :
      BenchStep cfg b i s l s { l with pc := .counterMismatch }
  | agree {s : Shared} {l : BenchThread} {k : Kind} {ks : List Kind}
      (hpc : l.pc = .check (k :: ks))
      (heq : (s.core.complete k - l.completeBefore k).setWidth 64 = b.expected true) :
      BenchStep cfg b i s l s { l with pc := .check ks }
  | checked {s : Shared} {l : BenchThread} (hpc : l.pc = .check []) :
      BenchStep cfg b i s l s
        { l with pc := if b.benchmark.signals then .signal else
                   if l.bitshift < b.maxShift then .fence false else .done
                 bitshift := if b.benchmark.signals then l.bitshift else l.bitshift + 1 }
  -- The signals are injected, with retries that poll, and no counter is incremented.
  | signalAgain {s : Shared} {l : BenchThread} (hpc : l.pc = .signal) (hstack : l.stack = [.main]) :
      BenchStep cfg b i s l s { l with stack := [.polling .trySendLock, .main] }
  | signalled {s : Shared} {l : BenchThread} (hpc : l.pc = .signal) (hstack : l.stack = [.main]) :
      BenchStep cfg b i s l s { l with pc := .signalWait (s.core.posted .write) }
  | signalWaited {s : Shared} {l : BenchThread} {target : BitVec 32}
      (hpc : l.pc = .signalWait target) (hle : ¬ s.core.complete .write < target) :
      BenchStep cfg b i s l s { l with pc := .remote }
  | nextShift {s : Shared} {l : BenchThread} (hpc : l.pc = .remote) :
      BenchStep cfg b i s l s
        { l with pc := if l.bitshift < b.maxShift then .fence false else .done
                 bitshift := l.bitshift + 1 }

/-- The threads of a rank that runs a benchmark. Thread 0 is the main thread. -/
def benchmark (cfg : Setup) (b : BenchSetup) : ThreadSystem Shared BenchThread where
  init c := c.shared = .start ∧ ∃ pollers : ℕ, ∃ completeBefore postedBefore : Kind → BitVec 32,
    c.threads = ⟨[.main], .fence false, b.minShift, completeBefore, postedBefore⟩ ::
      List.replicate pollers ⟨[.main], .poller, b.minShift, completeBefore, postedBefore⟩
  step := BenchStep cfg b

section Counting

variable {cfg : Setup} {i : ℕ} {s s' : Shared} {f : Frame} {fs : List Frame} {k : Kind}

/-! ### What is not counted yet -/

/-- The calls in a frame whose operation, of kind `k`, is not counted as posted yet. -/
def Frame.uncounted (k : Kind) : Frame → ℕ
  | .posting x (.count _) => if x.kind = k then 1 else 0
  | .posting x .acquire | .posting x (.setCallback _) =>
    if x.func.countsFirst then 0 else if x.kind = k then 1 else 0
  | _ => 0

def stackUncounted (k : Kind) (stack : List Frame) : ℕ := (stack.map (Frame.uncounted k)).sum

theorem stackUncounted_singleton (f : Frame) : stackUncounted k [f] = f.uncounted k := by
  simp [stackUncounted]

theorem stackUncounted_cons (f : Frame) (rest : List Frame) :
    stackUncounted k (f :: rest) = f.uncounted k + stackUncounted k rest := by
  simp [stackUncounted]

theorem stackUncounted_append (fs rest : List Frame) :
    stackUncounted k (fs ++ rest) = stackUncounted k fs + stackUncounted k rest := by
  simp [stackUncounted]

/-- A call begins with its operation not counted. -/
theorem uncounted_entry (x : Call) :
    Frame.uncounted k (.posting x x.func.entry) = if x.kind = k then 1 else 0 := by
  unfold Func.entry
  split
  · rfl
  · next h => simp [Frame.uncounted, h]

/-- What a step counts was not counted, unless the step is a call. -/
theorem FrameStep.uncounted (h : FrameStep cfg i s f s' fs) (hpath : f.OnPath cfg)
    (hreturns : f.isUser → fs.length ≤ 1) :
    s'.core.count (Event.isCountedOf k) + stackUncounted k fs =
      s.core.count (Event.isCountedOf k) + f.uncounted k := by
  have hcount : s'.core.count (Event.isCountedOf k) = s.core.count (Event.isCountedOf k) +
      if nextCounted [f] = some k then 1 else 0 := h.count_counted k
  cases h with
  | call huser | poll huser | waitMsg huser | waitWrites _ huser =>
    -- the user's code does not call
    exact absurd (hreturns huser) (by simp)
  | @count x ctx =>
    have hafter : Frame.uncounted k (.posting x (x.afterCount cfg ctx)) = 0 := by
      unfold Call.afterCount
      split
      · -- it counts before it acquires a context
        have hfirst : x.func.countsFirst = true := hpath
        split
        · rfl
        · simp [Frame.uncounted, hfirst]
      · split <;> rfl
    rw [hcount, stackUncounted_singleton, hafter]
    simp [nextCounted, Frame.uncounted]
  | @setCallback x ctx =>
    have hafter : Frame.uncounted k (.posting x (x.afterSetCallback ctx)) =
        Frame.uncounted k (.posting x (.setCallback ctx)) := by
      unfold Call.afterSetCallback
      split <;> simp_all [Frame.uncounted]
    rw [hcount, stackUncounted_singleton, hafter]
    simp [nextCounted]
  | @deliveryTest x ctx =>
    have hafter : Frame.uncounted k (.posting x
        (if s.deliveryCompleteSupported then .writemsg ctx else .fallbackTest ctx)) = 0 := by
      split <;> rfl
    rw [stackUncounted_singleton, hafter]
    rfl
  | _ =>
    rw [hcount]
    simp [stackUncounted, nextCounted, Frame.uncounted]

/-- So it is for a thread. -/
theorem RunStep.uncounted {stack stack' : List Frame} (h : RunStep cfg i s stack s' stack')
    (hpath : ∀ g ∈ stack, g.OnPath cfg)
    (hreturns : ∀ g ∈ stack.head?, g.isUser → stack'.length ≤ stack.length) :
    s'.core.count (Event.isCountedOf k) + stackUncounted k stack' =
      s.core.count (Event.isCountedOf k) + stackUncounted k stack := by
  obtain @⟨_, f, fs, rest, h⟩ := h
  have hframe := h.uncounted (k := k) (hpath f (List.mem_cons_self ..)) fun huser => by
    have hlength := hreturns f rfl huser
    rw [List.length_append, List.length_cons] at hlength
    omega
  rw [stackUncounted_append, stackUncounted_cons]
  omega

/-- A thread with nothing to count counts nothing, and what is in flight does not grow. -/
theorem RunStep.inFlight_le {stack stack' : List Frame} (h : RunStep cfg i s stack s' stack')
    (hpath : ∀ g ∈ stack, g.OnPath cfg)
    (hreturns : ∀ g ∈ stack.head?, g.isUser → stack'.length ≤ stack.length)
    (hnone : stackUncounted k stack = 0) :
    s'.core.count (Event.isCountedOf k) = s.core.count (Event.isCountedOf k) ∧
      stackUncounted k stack' = 0 ∧ s'.core.inFlight k ≤ s.core.inFlight k := by
  have huncounted := h.uncounted (k := k) hpath hreturns
  have hlog := (CommStep.run h).shared.log_suffix
  have hcounted := count_mono hlog (Event.isCountedOf k)
  have hcompleted := count_mono hlog (Event.isCompletedOf k)
  simp only [Core.inFlight]
  omega

end Counting

/-! ### The length of a series -/

section Lengths

variable {b : BenchSetup} {timed : Bool} {n : ℕ}

theorem length_series :
    (b.series timed).length = b.numIterations timed * (b.size - 1) := by
  simp [BenchSetup.series, length_otherRanks b.rank_lt]

theorem setWidth_expected :
    (b.expected timed).setWidth 32 = BitVec.ofNat 32 (b.series timed).length := by
  rw [length_series, BenchSetup.expected, ← BitVec.ofNat_mul]
  apply BitVec.eq_of_toNat_eq
  simp only [BitVec.toNat_setWidth, BitVec.toNat_ofNat]
  omega

/-- A wait is for as many operations as the series has, unless counters wrap around. -/
theorem target_eq :
    b.target timed (BitVec.ofNat 32 n) = BitVec.ofNat 32 (n + (b.series timed).length) := by
  rw [BenchSetup.target, setWidth_expected, BitVec.ofNat_add]

/-- What is done of the timed series is what was expected. -/
theorem done_eq_expected (hsmall : n + (b.series true).length < 2 ^ 32) :
    (BitVec.ofNat 32 (n + (b.series true).length) - BitVec.ofNat 32 n).setWidth 64 =
      b.expected true := by
  have hdone : (BitVec.ofNat 32 (n + (b.series true).length) - BitVec.ofNat 32 n).toNat = _ :=
    WrappingCounter.toNat_ofNat_sub_ofNat (Nat.le_add_right ..) (by omega)
  apply BitVec.eq_of_toNat_eq
  rw [BitVec.toNat_setWidth, hdone, BenchSetup.expected, ← BitVec.ofNat_mul, BitVec.toNat_ofNat,
    ← length_series, Nat.add_sub_cancel_left]

end Lengths

section Windows

variable {cfg : Setup} {b : BenchSetup} {i : ℕ} {s s' : Shared} {l l' : BenchThread} {k : Kind}
  {c : Config Shared BenchThread}

/-- A benchmark is a program that uses the communicator. -/
theorem reachable_exceptionFree (hc : (benchmark cfg b).Reachable c) :
    (exceptionFree cfg).Reachable (c.map BenchThread.stack) := by
  refine hc.project BenchThread.stack ?_ ?_
  · rintro c ⟨hshared, pollers, completeBefore, postedBefore, hthreads⟩
    refine ⟨hshared, fun stack hstack => ?_⟩
    obtain ⟨l, hl, rfl⟩ := List.mem_map.mp hstack
    rw [hthreads, List.mem_cons, List.mem_replicate] at hl
    rcases hl with rfl | ⟨-, rfl⟩ <;> rfl
  · intro i s l s' l' h
    cases h with
    | run _ h => exact .inl ⟨.run h, h⟩
    | poll _ hstack | signalAgain _ hstack =>
      have hpoll : RunStep cfg i s l.stack s [.polling .trySendLock, .main] := by
        rw [hstack]
        exact .top (.poll rfl)
      exact .inl ⟨.run hpoll, hpoll⟩
    | @call _ _ _ _ _ _ _ x _ hstack _ _ _ _ h =>
      have hcall : RunStep cfg i s l.stack s' [.posting x x.func.entry, .main] := by
        rw [hstack]
        exact .top h
      exact .inl ⟨.run hcall, hcall⟩
    | _ => exact .inr ⟨rfl, rfl⟩

/-! ### What the main thread knows -/

/-- The counters read before a series had the value `n`. -/
def BenchThread.Before (k : Kind) (timed : Bool) (n : ℕ) (l : BenchThread) : Prop :=
  l.postedBefore k = BitVec.ofNat 32 n ∧ (timed → l.completeBefore k = BitVec.ofNat 32 n)

/-- Of a series, `left` operations are to be posted yet. -/
def BenchThread.Series (b : BenchSetup) (k : Kind) (timed : Bool) (posted left : ℕ)
    (l : BenchThread) : Prop :=
  ∃ n, l.Before k timed n ∧ posted + left = n + (b.series timed).length

/-- What is known of the operations of kind `k`, where `posted` counts those of the calls that are
running too. -/
def BenchThread.Sound (b : BenchSetup) (k : Kind) (posted inFlight : ℕ) (l : BenchThread) : Prop :=
  match l.pc with
  | .poller | .invalidKey => True
  | .fence _ | .signal | .signalWait _ | .remote | .done => inFlight = 0
  | .before timed ks completeRead => inFlight = 0 ∧ (k ∉ ks → l.Before k timed posted) ∧
      (completeRead → timed → ks.head? = some k → l.completeBefore k = BitVec.ofNat 32 posted)
  | .post timed peers => l.Series b k timed posted peers.length
  | .throttle timed _ peers _ => l.Series b k timed posted (peers.length + 1)
  | .calls timed _ funcs peers =>
    l.Series b k timed posted (peers.length + funcs.countP fun func => func.kind = k)
  | .wait timed ks => l.Series b k timed posted 0 ∧ (k ∉ ks → inFlight = 0)
  | .fenceAfter => l.Series b k true posted 0 ∧ inFlight = 0
  | .check ks => l.Series b k true posted 0 ∧ inFlight = 0 ∧ ks ⊆ b.benchmark.kinds
  | .counterMismatch => False

/-- Whether the thread is at the calls of a series. -/
def BenchPc.isCalls : BenchPc → Bool
  | .calls .. => true
  | _ => false

/-- Whether the thread is between two series, with no counter read. -/
def BenchPc.isIdle : BenchPc → Bool
  | .fence _ | .signal | .signalWait _ | .remote | .done => true
  | _ => false

theorem BenchThread.Sound.of_idle {posted inFlight : ℕ} (hpc : l.pc.isIdle)
    (hnone : inFlight = 0) : l.Sound b k posted inFlight := by
  obtain ⟨_, pc, _, _, _⟩ := l
  cases pc with
  | fence | signal | signalWait | remote | done => exact hnone
  | _ => cases hpc

/-- Whether the thread is at `t0` or at `t1`. -/
def BenchPc.isBoundary : BenchPc → Bool
  | .before true [] _ | .fenceAfter => true
  | _ => false

theorem BenchThread.Sound.inFlight_of_isBoundary {posted inFlight : ℕ}
    (h : l.Sound b k posted inFlight) (hpc : l.pc.isBoundary) : inFlight = 0 := by
  obtain ⟨_, pc, _, _, _⟩ := l
  cases pc with
  | before => exact h.1
  | fenceAfter => exact h.2
  | _ => cases hpc

theorem BenchThread.Sound.mono {posted inFlight inFlight' : ℕ} (h : l.Sound b k posted inFlight)
    (hflight : l.pc.isCalls = false → inFlight' ≤ inFlight) (stack : List Frame) :
    BenchThread.Sound b k posted inFlight' { l with stack := stack } := by
  obtain ⟨_, pc, _, _, _⟩ := l
  have hzero (hpc : pc.isCalls = false) (hnone : inFlight = 0) : inFlight' = 0 :=
    Nat.le_zero.mp ((hflight hpc).trans_eq hnone)
  cases pc with
  | poller | invalidKey => trivial
  | fence | signal | signalWait | remote | done => exact hzero rfl h
  | before => exact ⟨hzero rfl h.1, h.2⟩
  | post | throttle | calls => exact h
  | wait => exact ⟨h.1, fun hk => hzero rfl (h.2 hk)⟩
  | fenceAfter => exact ⟨h.1, hzero rfl h.2⟩
  | check => exact ⟨h.1, hzero rfl h.2.1, h.2.2⟩
  | counterMismatch => exact h

/-! ### Steps -/

/-- Outside of the calls of a series the thread has no operation that is not counted. -/
def BenchThread.Quiet (l : BenchThread) : Prop :=
  l.pc.isCalls = false → ∀ k, stackUncounted k l.stack = 0

theorem BenchStep.quiet (h : BenchStep cfg b i s l s' l') (hpath : ∀ g ∈ l.stack, g.OnPath cfg)
    (hl : l.Quiet) : l'.Quiet := by
  cases h with
  | run _ h hreturns => exact fun hpc k => (h.inFlight_le hpath hreturns (hl hpc k)).2.1
  | poll | signalAgain => exact fun _ _ => rfl
  | throttled | call => exact fun hpc => absurd hpc (by simp [BenchPc.isCalls])
  | next hpc hstack =>
    intro _ k
    show stackUncounted k l.stack = 0
    rw [hstack]
    rfl
  | enter hpc | readComplete hpc | readPosted hpc | begin hpc | invalid hpc | valid hpc
  | throttle hpc | posted hpc | waitAgain hpc | waitNext hpc | waited hpc | leave hpc | differ hpc
  | agree hpc | checked hpc | signalled hpc | signalWaited hpc | nextShift hpc =>
    exact fun _ => hl (by rw [hpc]; rfl)

theorem BenchStep.poller (h : BenchStep cfg b i s l s' l') (hpoller : l.pc = .poller) :
    l'.pc = .poller := by
  cases h with
  | run | poll => exact hpoller
  | _ => simp_all

/-- The pollers count nothing. -/
theorem BenchStep.of_poller (h : BenchStep cfg b i s l s' l') (hpoller : l.pc = .poller)
    (hpath : ∀ g ∈ l.stack, g.OnPath cfg) (hl : l.Quiet) (k : Kind) :
    s'.core.count (Event.isCountedOf k) = s.core.count (Event.isCountedOf k) ∧
      s'.core.inFlight k ≤ s.core.inFlight k := by
  cases h with
  | run _ h hreturns =>
    have hquiet := hl (by rw [hpoller]; rfl) k
    have hflight := h.inFlight_le hpath hreturns hquiet
    exact ⟨hflight.1, hflight.2.2⟩
  | call => simp_all
  | _ => exact ⟨rfl, le_rfl⟩

/-- The operations of kind `k` that are counted, and those of the calls that are running. -/
def BenchThread.posted (k : Kind) (s : Core) (l : BenchThread) : ℕ :=
  s.count (Event.isCountedOf k) + stackUncounted k l.stack

/-- What the counters tell, as long as they have not wrapped around. -/
structure CountersSmall (k : Kind) (s : Core) : Prop where
  posted : s.posted k = BitVec.ofNat 32 (s.count (Event.isCountedOf k))
  complete : s.complete k = BitVec.ofNat 32 (s.count (Event.isCompletedOf k))
  completed_le : s.count (Event.isCompletedOf k) ≤ s.count (Event.isCountedOf k)
  small : s.count (Event.isCountedOf k) < 2 ^ 32

/-- With nothing in flight the counters agree. -/
theorem CountersSmall.complete_eq {s : Core} (h : CountersSmall k s) (hnone : s.inFlight k = 0) :
    s.complete k = BitVec.ofNat 32 (s.count (Event.isCountedOf k)) := by
  have hle : s.count (Event.isCountedOf k) ≤ s.count (Event.isCompletedOf k) :=
    Nat.sub_eq_zero_iff_le.mp hnone
  rw [h.complete, le_antisymm h.completed_le hle]

/-- A wait for all that is posted leaves nothing in flight. -/
theorem CountersSmall.inFlight_eq_zero {s : Core} (h : CountersSmall k s)
    (hle : ¬ s.complete k < BitVec.ofNat 32 (s.count (Event.isCountedOf k))) :
    s.inFlight k = 0 := by
  have hwraps : s.count (Event.isCompletedOf k) / 2 ^ 32 =
      s.count (Event.isCountedOf k) / 2 ^ 32 := by
    rw [Nat.div_eq_of_lt h.small, Nat.div_eq_of_lt (h.completed_le.trans_lt h.small)]
  rw [h.complete, WrappingCounter.ofNat_lt_ofNat_iff hwraps, Nat.not_lt] at hle
  exact Nat.sub_eq_zero_of_le hle

/-- Each kind is posted once for each peer. -/
theorem countP_posts (b : Benchmark) (hk : k ∈ b.kinds) :
    b.posts.countP (fun func => func.kind = k) = 1 := by
  cases b <;> revert hk <;> cases k <;> decide

/-- A wait with counters that have not wrapped around has waited for the series. -/
theorem BenchThread.Series.waited {s : Core} {timed : Bool}
    (hl : l.Series b k timed (s.count (Event.isCountedOf k)) 0) (hsmall : CountersSmall k s)
    (hle : ¬ s.complete k < b.target timed (l.postedBefore k)) : s.inFlight k = 0 := by
  obtain ⟨n, ⟨hbefore, -⟩, heq⟩ := hl
  rw [hbefore, target_eq, ← heq] at hle
  exact hsmall.inFlight_eq_zero hle

/-- The comparison after the timed series is one of equal numbers. -/
theorem BenchThread.Series.agrees {s : Core}
    (hl : l.Series b k true (s.count (Event.isCountedOf k)) 0) (hsmall : CountersSmall k s)
    (hnone : s.inFlight k = 0) :
    (s.complete k - l.completeBefore k).setWidth 64 = b.expected true := by
  obtain ⟨n, ⟨-, hbefore⟩, heq⟩ := hl
  rw [hbefore rfl, hsmall.complete_eq hnone, ← Nat.add_zero (s.count _), heq]
  exact done_eq_expected (by rw [← heq]; exact hsmall.small)

/-- The complete counter is read with nothing in flight. -/
theorem BenchThread.Sound.readComplete {s : Core} {timed : Bool} {k' : Kind} {ks : List Kind}
    (h : l.Sound b k (l.posted k s) (s.inFlight k))
    (hpc : l.pc = .before timed (k' :: ks) false) (hsmall : CountersSmall k s)
    (hposted : l.posted k s = s.count (Event.isCountedOf k)) :
    BenchThread.Sound b k (l.posted k s) (s.inFlight k)
      { l with pc := .before timed (k' :: ks) true
               completeBefore := Function.update l.completeBefore k' (s.complete k') } := by
  simp only [BenchThread.Sound, hpc] at h ⊢
  obtain ⟨hnone, hbefore, -⟩ := h
  refine ⟨hnone, fun hnot => ?_, fun _ _ hhead => ?_⟩
  · have hne : k ≠ k' := List.ne_of_not_mem_cons hnot
    have hsame : Function.update l.completeBefore k' (s.complete k') k = l.completeBefore k :=
      Function.update_of_ne hne ..
    obtain ⟨hbefore', hcomplete⟩ := hbefore hnot
    exact ⟨hbefore', fun htimed => hsame.trans (hcomplete htimed)⟩
  · obtain rfl := Option.some.inj hhead
    rw [Function.update_self, hsmall.complete_eq hnone, hposted]

/-- The posted counter is read after the complete counter. -/
theorem BenchThread.Sound.readPosted {s : Core} {timed : Bool} {k' : Kind} {ks : List Kind}
    (h : l.Sound b k (l.posted k s) (s.inFlight k))
    (hpc : l.pc = .before timed (k' :: ks) true) (hsmall : CountersSmall k s)
    (hposted : l.posted k s = s.count (Event.isCountedOf k)) :
    BenchThread.Sound b k (l.posted k s) (s.inFlight k)
      { l with pc := .before timed ks (!timed)
               postedBefore := Function.update l.postedBefore k' (s.posted k') } := by
  simp only [BenchThread.Sound, hpc] at h ⊢
  obtain ⟨hnone, hbefore, hhead⟩ := h
  refine ⟨hnone, fun hnot => ?_, fun hread htimed => by simp [htimed] at hread⟩
  by_cases heq : k = k'
  · subst heq
    refine ⟨?_, fun htimed => hhead trivial htimed rfl⟩
    show Function.update l.postedBefore k (s.posted k) k = _
    rw [Function.update_self, hsmall.posted, hposted]
  · obtain ⟨hbefore', hcomplete⟩ := hbefore (List.not_mem_cons_of_ne_of_not_mem heq hnot)
    exact ⟨(Function.update_of_ne heq ..).trans hbefore', hcomplete⟩

/-- A call that begins was to be made, and its operation is not counted yet. -/
theorem BenchThread.Sound.call {s s' : Core} {timed : Bool} {peer : ℕ} {func : Func}
    {funcs : List Func} {peers : List ℕ} {x : Call}
    (h : l.Sound b k (l.posted k s) (s.inFlight k))
    (hpc : l.pc = .calls timed peer (func :: funcs) peers) (hstack : l.stack = [.main])
    (hfunc : x.func = func)
    (hcount : s'.count (Event.isCountedOf k) = s.count (Event.isCountedOf k)) :
    let l' := { l with stack := [.posting x x.func.entry, .main]
                       pc := .calls timed peer funcs peers }
    BenchThread.Sound b k (BenchThread.posted k s' l') (s'.inFlight k) l' := by
  simp only [BenchThread.Sound, hpc] at h ⊢
  obtain ⟨n, hbefore, heq⟩ := h
  refine ⟨n, hbefore, ?_⟩
  have hentry : stackUncounted k [.posting x x.func.entry, .main] =
      if x.func.kind = k then 1 else 0 := by
    rw [stackUncounted_cons, uncounted_entry]
    rfl
  have hmain : stackUncounted k [.main] = 0 := rfl
  rw [BenchThread.posted, hstack, hmain, List.countP_cons, ← hfunc] at heq
  rw [BenchThread.posted, hcount, hentry]
  simp only [decide_eq_true_eq] at heq
  omega

/-- The wait for a kind ends when the series is complete. -/
theorem BenchThread.Sound.waitNext {s : Core} {timed : Bool} {k' : Kind} {ks : List Kind}
    (h : l.Sound b k (l.posted k s) (s.inFlight k)) (hpc : l.pc = .wait timed (k' :: ks))
    (hsmall : CountersSmall k s) (hposted : l.posted k s = s.count (Event.isCountedOf k))
    (hle : ¬ s.complete k' < b.target timed (l.postedBefore k')) :
    BenchThread.Sound b k (l.posted k s) (s.inFlight k) { l with pc := .wait timed ks } := by
  simp only [BenchThread.Sound, hpc] at h ⊢
  refine ⟨h.1, fun hnot => ?_⟩
  by_cases heq : k = k'
  · subst heq
    have hseries := h.1
    rw [hposted] at hseries
    exact hseries.waited hsmall hle
  · exact h.2 (List.not_mem_cons_of_ne_of_not_mem heq hnot)

theorem BenchThread.Sound.agrees_of_check {s : Core} {ks : List Kind}
    (h : l.Sound b k (l.posted k s) (s.inFlight k)) (hpc : l.pc = .check ks)
    (hsmall : CountersSmall k s) (hquiet : stackUncounted k l.stack = 0) :
    (s.complete k - l.completeBefore k).setWidth 64 = b.expected true := by
  simp only [BenchThread.Sound, hpc] at h
  obtain ⟨hseries, hnone, -⟩ := h
  rw [BenchThread.posted, hquiet, Nat.add_zero] at hseries
  exact hseries.agrees hsmall hnone

/-- The main thread goes on with what it knows. -/
theorem BenchStep.sound (h : BenchStep cfg b i s l s' l') (hpath : ∀ g ∈ l.stack, g.OnPath cfg)
    (hquiet : l.Quiet) (hsmall : ∀ k ∈ b.benchmark.kinds, CountersSmall k s.core)
    (hl : ∀ k ∈ b.benchmark.kinds, l.Sound b k (l.posted k s.core) (s.core.inFlight k)) :
    ∀ k ∈ b.benchmark.kinds, l'.Sound b k (l'.posted k s'.core) (s'.core.inFlight k) := by
  intro k hk
  have hlk := hl k hk
  -- outside of the calls, what is posted is what is counted
  have hposted (hpc : l.pc.isCalls = false) :
      l.posted k s.core = s.core.count (Event.isCountedOf k) := by
    rw [BenchThread.posted, hquiet hpc k, Nat.add_zero]
  cases h with
  | @run _ _ stack' _ h hreturns =>
    have hsame : BenchThread.posted k s'.core { l with stack := stack' } = l.posted k s.core :=
      h.uncounted hpath hreturns
    rw [hsame]
    exact hlk.mono (fun hpc => (h.inFlight_le hpath hreturns (hquiet hpc k)).2.2) stack'
  | poll hpc => simp [BenchThread.Sound, hpc]
  | @enter _ timed hpc =>
    simp only [BenchThread.Sound, hpc] at hlk ⊢
    exact ⟨hlk, fun hnot => absurd hk hnot, fun hread htimed => by simp [htimed] at hread⟩
  | @readComplete _ timed k' ks hpc =>
    exact hlk.readComplete hpc (hsmall k hk) (hposted (by rw [hpc]; rfl))
  | @readPosted _ timed k' ks hpc =>
    exact hlk.readPosted hpc (hsmall k hk) (hposted (by rw [hpc]; rfl))
  | begin hpc =>
    simp only [BenchThread.Sound, hpc] at hlk ⊢
    exact ⟨_, hlk.2.1 List.not_mem_nil, rfl⟩
  | invalid => trivial
  | valid hpc | throttle hpc | next hpc =>
    simp only [BenchThread.Sound, hpc] at hlk
    exact hlk
  | throttled hpc =>
    simp only [BenchThread.Sound, hpc] at hlk ⊢
    rw [countP_posts b.benchmark hk]
    exact hlk
  | @call _ _ _ _ func funcs peers x hpc hstack hfunc _ _ _ h =>
    have hcount : s'.core.count (Event.isCountedOf k) = s.core.count (Event.isCountedOf k) +
        if nextCounted [.main] = some k then 1 else 0 := h.count_counted k
    exact hlk.call hpc hstack hfunc hcount
  | posted hpc =>
    simp only [BenchThread.Sound, hpc] at hlk ⊢
    exact ⟨hlk, fun hnot => absurd hk hnot⟩
  | waitAgain hpc =>
    simp only [BenchThread.Sound, hpc] at hlk ⊢
    exact ⟨hlk.1, fun hnot => absurd hk hnot⟩
  | @waitNext _ _ k' ks hpc hle =>
    exact hlk.waitNext hpc (hsmall k hk) (hposted (by rw [hpc]; rfl)) hle
  | @waited _ timed hpc =>
    simp only [BenchThread.Sound, hpc] at hlk
    cases timed with
    | true => exact ⟨hlk.1, hlk.2 List.not_mem_nil⟩
    | false => exact hlk.2 List.not_mem_nil
  | leave hpc =>
    simp only [BenchThread.Sound, hpc] at hlk ⊢
    exact ⟨hlk.1, hlk.2, List.Subset.refl _⟩
  | @differ _ k' ks hpc hne =>
    simp only [BenchThread.Sound, hpc] at hlk
    have hk' : k' ∈ b.benchmark.kinds := hlk.2.2 (List.mem_cons_self ..)
    exact hne ((hl k' hk').agrees_of_check hpc (hsmall k' hk') (hquiet (by rw [hpc]; rfl) k'))
  | agree hpc =>
    simp only [BenchThread.Sound, hpc] at hlk ⊢
    exact ⟨hlk.1, hlk.2.1, fun x hx => hlk.2.2 (List.mem_cons_of_mem _ hx)⟩
  | checked hpc =>
    simp only [BenchThread.Sound, hpc] at hlk
    refine .of_idle ?_ hlk.2.1
    dsimp only
    split_ifs <;> rfl
  | signalAgain hpc | signalled hpc | signalWaited hpc =>
    simp only [BenchThread.Sound, hpc] at hlk
    simp only [BenchThread.Sound, hpc]
    exact hlk
  | nextShift hpc =>
    simp only [BenchThread.Sound, hpc] at hlk
    refine .of_idle ?_ hlk
    dsimp only
    split_ifs <;> rfl

end Windows

end LibFatbat
