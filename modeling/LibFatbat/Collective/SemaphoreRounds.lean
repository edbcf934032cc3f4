import LibFatbat.Collective.Buffers
import LibFatbat.Concurrent.ThreadSystem

/-!
# The semaphore rounds of the write benchmarks

The loop over the message sizes in `rdma-write-benchmark` and `rdma-writedata-benchmark`. In the
round of a size a rank passes three fences, between which it writes to its peers, signals the round
to every peer by writing the shift of the size into its slot, and waits until its own slots all have
that value. The slots are zero when the benchmark begins.

The ranks are the threads of a `ThreadSystem`; what they share is the signals on their way, which
arrive in any order, and how many fences each rank has entered. The writes between the fences go to
other memory and are left out, as is the time that they take; a rank whose counters do not add up
afterwards leaves the benchmark with an exception. The keys exchanged before are valid.

The main result, `roundsSynchronised_iff`, says that the rounds synchronise the ranks in every run
if and only if no round has shift zero.
-/

open Concurrent

namespace LibFatbat

/-- A run of a benchmark. -/
structure SemaphoreSetup where
  /-- The number of ranks. -/
  size : ℕ
  minShift : ℕ
  maxShift : ℕ

/-- A signal on its way: rank `src` writes a value into its slot at rank `dst`. -/
structure Signal where
  src : ℕ
  dst : ℕ
  value : ℕ
  deriving DecidableEq

/-- What the ranks share. -/
structure SemaphoreShared where
  net : List Signal
  /-- How many fences each rank has entered. -/
  arrived : ℕ → ℕ

/-- The fences of a round. -/
inductive RoundFence
  | beforeWarmup
  | beforeWrites
  | afterWrites
  deriving DecidableEq

/-- Where a rank is. -/
inductive SemaphorePc
  /-- At the loop condition. -/
  | loop
  /-- At the entry of a fence. -/
  | fence (f : RoundFence)
  /-- In a fence. -/
  | inFence (f : RoundFence)
  /-- Writing the warm-up iterations. -/
  | warmup
  /-- Writing the iterations that are measured. -/
  | writes
  /-- At the check of the counters. -/
  | check
  /-- At the signal to rank `r`. -/
  | signal (r : ℕ)
  /-- In `wait_for_write_completions`. -/
  | waitWrites
  /-- In the wait loop, at the slot of rank `r`. -/
  | read (r : ℕ)
  /-- Out of the loop over the sizes. -/
  | done
  /-- Left with an exception. -/
  | failed
  deriving DecidableEq

/-- What follows a fence. -/
def RoundFence.after : RoundFence → SemaphorePc
  | .beforeWarmup => .warmup
  | .beforeWrites => .writes
  | .afterWrites => .check

/-- A rank. -/
structure SemaphoreRank where
  pc : SemaphorePc
  /-- `bitshift`. -/
  round : ℕ
  /-- `local_buffer`, the slots that the peers write into. -/
  slots : ℕ → ℕ
  /-- The calls of `signal_completion`, by round and rank. -/
  signalled : List (ℕ × ℕ)
  /-- The rounds whose wait loop was left. -/
  left : List ℕ

/-- A rank before the loop. -/
def SemaphoreRank.start (cfg : SemaphoreSetup) : SemaphoreRank where
  pc := .loop
  round := cfg.minShift
  slots _ := 0
  signalled := []
  left := []

/-- The steps of rank `i`. -/
inductive SemaphoreStep (cfg : SemaphoreSetup) (i : ℕ) :
    SemaphoreShared → SemaphoreRank → SemaphoreShared → SemaphoreRank → Prop
  -- The loop over the sizes.
  | enterRound {s : SemaphoreShared} {l : SemaphoreRank} (hpc : l.pc = .loop)
      (hround : l.round ≤ cfg.maxShift) :
      SemaphoreStep cfg i s l s { l with pc := .fence .beforeWarmup }
  | finish {s : SemaphoreShared} {l : SemaphoreRank} (hpc : l.pc = .loop)
      (hround : ¬l.round ≤ cfg.maxShift) : SemaphoreStep cfg i s l s { l with pc := .done }
  -- A fence is left when every rank has entered it.
  | enterFence {s : SemaphoreShared} {l : SemaphoreRank} {f : RoundFence} (hpc : l.pc = .fence f) :
      SemaphoreStep cfg i s l { s with arrived := Function.update s.arrived i (s.arrived i + 1) }
        { l with pc := .inFence f }
  | leaveFence {s : SemaphoreShared} {l : SemaphoreRank} {f : RoundFence} (hpc : l.pc = .inFence f)
      (hall : ∀ r < cfg.size, s.arrived i ≤ s.arrived r) :
      SemaphoreStep cfg i s l s { l with pc := f.after }
  | warmupDone {s : SemaphoreShared} {l : SemaphoreRank} (hpc : l.pc = .warmup) :
      SemaphoreStep cfg i s l s { l with pc := .fence .beforeWrites }
  | writesDone {s : SemaphoreShared} {l : SemaphoreRank} (hpc : l.pc = .writes) :
      SemaphoreStep cfg i s l s { l with pc := .fence .afterWrites }
  | checked {s : SemaphoreShared} {l : SemaphoreRank} (hpc : l.pc = .check) :
      SemaphoreStep cfg i s l s { l with pc := .signal 0 }
  /-- The counters do not add up. -/
  | mismatch {s : SemaphoreShared} {l : SemaphoreRank} (hpc : l.pc = .check) :
      SemaphoreStep cfg i s l s { l with pc := .failed }
  -- The loop that signals the peers.
  | skipSignal {s : SemaphoreShared} {l : SemaphoreRank} (hpc : l.pc = .signal i)
      (hi : i < cfg.size) : SemaphoreStep cfg i s l s { l with pc := .signal (i + 1) }
  /-- `signal_completion`. -/
  | signal {s : SemaphoreShared} {l : SemaphoreRank} {r : ℕ} (hpc : l.pc = .signal r)
      (hr : r < cfg.size) (hne : r ≠ i) :
      SemaphoreStep cfg i s l { s with net := s.net ++ [⟨i, r, l.round⟩] }
        { l with pc := .signal (r + 1), signalled := l.signalled ++ [(l.round, r)] }
  | signalEnd {s : SemaphoreShared} {l : SemaphoreRank} (hpc : l.pc = .signal cfg.size) :
      SemaphoreStep cfg i s l s { l with pc := .waitWrites }
  | waited {s : SemaphoreShared} {l : SemaphoreRank} (hpc : l.pc = .waitWrites) :
      SemaphoreStep cfg i s l s { l with pc := .read 0 }
  -- The wait loop.
  | skipRead {s : SemaphoreShared} {l : SemaphoreRank} (hpc : l.pc = .read i) (hi : i < cfg.size) :
      SemaphoreStep cfg i s l s { l with pc := .read (i + 1) }
  /-- `read_completion` returns the round. -/
  | readSame {s : SemaphoreShared} {l : SemaphoreRank} {r : ℕ} (hpc : l.pc = .read r)
      (hr : r < cfg.size) (hne : r ≠ i) (hslot : l.slots r = l.round) :
      SemaphoreStep cfg i s l s { l with pc := .read (r + 1) }
  /-- `read_completion` returns another value, and the loop begins again. -/
  | readOther {s : SemaphoreShared} {l : SemaphoreRank} {r : ℕ} (hpc : l.pc = .read r)
      (hr : r < cfg.size) (hne : r ≠ i) (hslot : l.slots r ≠ l.round) :
      SemaphoreStep cfg i s l s { l with pc := .read 0 }
  /-- The wait loop is left. -/
  | leave {s : SemaphoreShared} {l : SemaphoreRank} (hpc : l.pc = .read cfg.size) :
      SemaphoreStep cfg i s l s
        { l with pc := .loop, round := l.round + 1, left := l.left ++ [l.round] }
  /-- A signal arrives. -/
  | deliver {pre post : List Signal} {arrived : ℕ → ℕ} {l : SemaphoreRank} {src value : ℕ} :
      SemaphoreStep cfg i ⟨pre ++ ⟨src, i, value⟩ :: post, arrived⟩ l ⟨pre ++ post, arrived⟩
        { l with slots := Function.update l.slots src value }

/-- The ranks of a job. -/
def semaphoreRounds (cfg : SemaphoreSetup) : ThreadSystem SemaphoreShared SemaphoreRank where
  init c := c.shared = ⟨[], fun _ => 0⟩ ∧ c.threads = List.replicate cfg.size (.start cfg)
  step := SemaphoreStep cfg

variable {cfg : SemaphoreSetup} {c : Config SemaphoreShared SemaphoreRank}

/-- Rank `r` has called `signal_completion(b, i)`. -/
def Signalled (c : Config SemaphoreShared SemaphoreRank) (r b i : ℕ) : Prop :=
  ∃ m, c.threads[r]? = some m ∧ (b, i) ∈ m.signalled

/-- Every rank has signalled the rounds whose wait loop a rank has left to that rank, and in the
wait loop of a round a rank finds no value of a later one. -/
def RoundsSynchronised (cfg : SemaphoreSetup) (c : Config SemaphoreShared SemaphoreRank) : Prop :=
  ∀ (i : ℕ) (l : SemaphoreRank), c.threads[i]? = some l →
    (∀ b ∈ l.left, ∀ r < cfg.size, r ≠ i → Signalled c r b i) ∧
      ∀ k, l.pc = .read k → ∀ r < cfg.size, r ≠ i → l.slots r ≤ l.round

/-! ### Fences -/

/-- The fences of its round that a rank has entered. -/
def SemaphorePc.entered : SemaphorePc → ℕ
  | .loop | .fence .beforeWarmup | .done => 0
  | .inFence .beforeWarmup | .warmup | .fence .beforeWrites => 1
  | .inFence .beforeWrites | .writes | .fence .afterWrites => 2
  | .inFence .afterWrites | .check | .signal _ | .waitWrites | .read _ | .failed => 3

/-- The fences of its round that a rank has left. -/
def SemaphorePc.passed : SemaphorePc → ℕ
  | .loop | .fence .beforeWarmup | .inFence .beforeWarmup | .done => 0
  | .warmup | .fence .beforeWrites | .inFence .beforeWrites => 1
  | .writes | .fence .afterWrites | .inFence .afterWrites => 2
  | .check | .signal _ | .waitWrites | .read _ | .failed => 3

/-- The fences that a rank has entered. -/
def SemaphoreRank.entered (cfg : SemaphoreSetup) (l : SemaphoreRank) : ℕ :=
  3 * (l.round - cfg.minShift) + l.pc.entered

/-- The fences that a rank has left. -/
def SemaphoreRank.passed (cfg : SemaphoreSetup) (l : SemaphoreRank) : ℕ :=
  3 * (l.round - cfg.minShift) + l.pc.passed

theorem SemaphorePc.entered_le (pc : SemaphorePc) : pc.entered ≤ 3 := by
  cases pc with
  | fence f | inFence f => cases f <;> decide
  | _ => simp [entered]

/-- Past a fence, a rank has left as many as it had entered in it. -/
theorem RoundFence.passed_after (f : RoundFence) :
    f.after.passed = (SemaphorePc.inFence f).entered ∧
      f.after.entered = (SemaphorePc.inFence f).entered ∧
        (SemaphorePc.inFence f).passed ≤ f.after.passed := by
  cases f <;> decide

theorem RoundFence.entered_inFence (f : RoundFence) :
    (SemaphorePc.inFence f).entered = (SemaphorePc.fence f).entered + 1 ∧
      (SemaphorePc.inFence f).passed = (SemaphorePc.fence f).passed := by
  cases f <;> decide

/-- A rank enters and leaves its fences in order, and leaves one that all ranks have entered. -/
theorem SemaphoreStep.fences {i : ℕ} {s s' : SemaphoreShared} {l l' : SemaphoreRank}
    (h : SemaphoreStep cfg i s l s' l') (hround : cfg.minShift ≤ l.round)
    (harrived : s.arrived i = l.entered cfg) :
    cfg.minShift ≤ l'.round ∧ s'.arrived = Function.update s.arrived i (l'.entered cfg) ∧
      l.entered cfg ≤ l'.entered cfg ∧ l.passed cfg ≤ l'.passed cfg ∧
        (l'.passed cfg = l.passed cfg ∨ ∀ r < cfg.size, l'.passed cfg ≤ s.arrived r) := by
  -- A step that enters and leaves no fence.
  have hsame : ∀ l' : SemaphoreRank, cfg.minShift ≤ l'.round → l'.entered cfg = l.entered cfg →
      l'.passed cfg = l.passed cfg →
      cfg.minShift ≤ l'.round ∧ s.arrived = Function.update s.arrived i (l'.entered cfg) ∧
        l.entered cfg ≤ l'.entered cfg ∧ l.passed cfg ≤ l'.passed cfg ∧
          (l'.passed cfg = l.passed cfg ∨ ∀ r < cfg.size, l'.passed cfg ≤ s.arrived r) := by
    intro l' hround' hentered hpassed
    rw [hentered, hpassed, ← harrived, Function.update_eq_self]
    exact ⟨hround', rfl, le_rfl, le_rfl, .inl rfl⟩
  cases h with
  | @enterFence _ _ f hpc =>
    obtain ⟨hentered, hpassed⟩ := f.entered_inFence
    have hnext : SemaphoreRank.entered cfg { l with pc := .inFence f } = s.arrived i + 1 := by
      rw [harrived, SemaphoreRank.entered, SemaphoreRank.entered, hpc, hentered]
      rfl
    refine ⟨hround, by rw [hnext], by rw [hnext, harrived]; exact Nat.le_succ _, ?_, .inl ?_⟩
    all_goals simp only [SemaphoreRank.passed, hpc, hpassed, le_refl]
  | @leaveFence _ _ f hpc hall =>
    obtain ⟨hpassed, hentered, hle⟩ := f.passed_after
    have hnext : SemaphoreRank.passed cfg { l with pc := f.after } = s.arrived i := by
      rw [harrived, SemaphoreRank.entered, SemaphoreRank.passed, hpc, hpassed]
    have hstay : SemaphoreRank.entered cfg { l with pc := f.after } = s.arrived i := by
      rw [harrived, SemaphoreRank.entered, SemaphoreRank.entered, hpc, hentered]
    refine ⟨hround, by rw [hstay, Function.update_eq_self], by rw [hstay, harrived], ?_, .inr ?_⟩
    · simp only [SemaphoreRank.passed, hpc]
      omega
    · rw [hnext]
      exact hall
  | leave hpc =>
    refine hsame _ (Nat.le_succ_of_le hround) ?_ ?_
    · simp only [SemaphoreRank.entered, hpc, SemaphorePc.entered]
      omega
    · simp only [SemaphoreRank.passed, hpc, SemaphorePc.passed]
      omega
  | deliver => exact hsame _ hround rfl rfl
  | _ hpc =>
    refine hsame _ hround ?_ ?_
    · simp only [SemaphoreRank.entered, hpc, SemaphorePc.entered]
    · simp only [SemaphoreRank.passed, hpc, SemaphorePc.passed]

/-! ### Signals -/

/-- What a step adds to the signals called, on their way and arrived. -/
theorem SemaphoreStep.signals {i : ℕ} {s s' : SemaphoreShared} {l l' : SemaphoreRank}
    (h : SemaphoreStep cfg i s l s' l') :
    (l'.signalled = l.signalled ∨
      l.pc.passed = 3 ∧ ∃ r, l'.signalled = l.signalled ++ [(l.round, r)]) ∧
    (∀ x ∈ s'.net, x ∈ s.net ∨ x.src = i ∧ (x.value, x.dst) ∈ l'.signalled) ∧
      ∀ r, l'.slots r = l.slots r ∨ ⟨r, i, l'.slots r⟩ ∈ s.net := by
  cases h with
  | @signal _ _ r hpc hr hne =>
    -- the only step that sends
    refine ⟨.inr ⟨by rw [hpc]; rfl, r, rfl⟩, fun x hx => ?_, fun _ => .inl rfl⟩
    rcases List.mem_append.mp hx with hx | hx
    · exact .inl hx
    · rw [List.mem_singleton.mp hx]
      exact .inr ⟨rfl, List.mem_append_right _ (List.mem_singleton_self _)⟩
  | @deliver pre post _ _ src value =>
    -- the only step that writes a slot
    refine ⟨.inl rfl, fun x hx => .inl ?_, fun r => ?_⟩
    · rcases List.mem_append.mp hx with hx | hx
      · exact List.mem_append_left _ hx
      · exact List.mem_append_right _ (List.mem_cons_of_mem _ hx)
    · by_cases hr : r = src
      · right
        subst hr
        simp
      · left
        exact Function.update_of_ne hr _ _
  | _ => exact ⟨.inl rfl, fun x hx => .inl hx, fun _ => .inl rfl⟩

/-- A call of `signal_completion` is not undone. -/
theorem Signalled.step {c c' : Config SemaphoreShared SemaphoreRank} {r b i : ℕ}
    (h : Signalled c r b i) (hstep : (semaphoreRounds cfg).Step c c') : Signalled c' r b i := by
  obtain ⟨m, hm, hmem⟩ := h
  obtain ⟨j, hget, hstep⟩ := hstep
  by_cases hr : r = j
  · subst hr
    obtain rfl := Option.some.inj (hget.symm.trans hm)
    refine ⟨_, List.getElem?_set_self (List.getElem?_eq_some_iff.mp hget).1, ?_⟩
    rcases hstep.signals.1 with hsame | ⟨-, _, hmore⟩
    · rw [hsame]
      exact hmem
    · rw [hmore]
      exact List.mem_append_left _ hmem
  · refine ⟨m, ?_, hmem⟩
    rw [List.getElem?_set_ne (Ne.symm hr)]
    exact hm

/-- What holds of a configuration in every run. -/
structure SemaphoreInv (cfg : SemaphoreSetup) (c : Config SemaphoreShared SemaphoreRank) :
    Prop where
  length : c.threads.length = cfg.size
  round : ∀ (i : ℕ) (l : SemaphoreRank), c.threads[i]? = some l → cfg.minShift ≤ l.round
  arrived : ∀ (i : ℕ) (l : SemaphoreRank), c.threads[i]? = some l →
    c.shared.arrived i = l.entered cfg
  /-- A rank is past a fence only when all have entered it. -/
  fences : ∀ (i : ℕ) (l : SemaphoreRank), c.threads[i]? = some l → ∀ r < cfg.size,
    l.passed cfg ≤ c.shared.arrived r
  /-- A rank signals a round when it is past the fences of the round. -/
  signalled : ∀ (i : ℕ) (l : SemaphoreRank), c.threads[i]? = some l → ∀ x ∈ l.signalled,
    cfg.minShift ≤ x.1 ∧ 3 * (x.1 - cfg.minShift) + 3 ≤ l.passed cfg
  net : ∀ x ∈ c.shared.net, Signalled c x.src x.value x.dst
  slots : ∀ (i : ℕ) (l : SemaphoreRank), c.threads[i]? = some l → ∀ r,
    l.slots r = 0 ∨ Signalled c r (l.slots r) i

/-- No rank has signalled anything or entered a fence. -/
theorem SemaphoreInv.start :
    SemaphoreInv cfg ⟨⟨[], fun _ => 0⟩, List.replicate cfg.size (SemaphoreRank.start cfg)⟩ := by
  have hstart : ∀ (i : ℕ) (l : SemaphoreRank),
      (List.replicate cfg.size (SemaphoreRank.start cfg))[i]? = some l → l = .start cfg :=
    fun i l hget => List.eq_of_mem_replicate (List.mem_of_getElem? hget)
  constructor
  case length => exact List.length_replicate
  case round =>
    intro i l hget
    rw [hstart i l hget]
    exact le_rfl
  case arrived =>
    intro i l hget
    rw [hstart i l hget]
    simp [SemaphoreRank.entered, SemaphoreRank.start, SemaphorePc.entered]
  case fences =>
    intro i l hget r _
    rw [hstart i l hget]
    simp [SemaphoreRank.passed, SemaphoreRank.start, SemaphorePc.passed]
  case signalled =>
    intro i l hget x hx
    rw [hstart i l hget] at hx
    exact absurd hx List.not_mem_nil
  case net => exact fun x hx => absurd hx List.not_mem_nil
  case slots =>
    intro i l hget r
    rw [hstart i l hget]
    exact .inl rfl

/-- The invariant survives a step. -/
theorem SemaphoreInv.step {i : ℕ} {s' : SemaphoreShared} {l l' : SemaphoreRank}
    (h : SemaphoreInv cfg c) (hget : c.threads[i]? = some l)
    (hstep : SemaphoreStep cfg i c.shared l s' l') :
    SemaphoreInv cfg ⟨s', c.threads.set i l'⟩ := by
  have hkept : (semaphoreRounds cfg).Step c ⟨s', c.threads.set i l'⟩ := .thread i hget hstep
  have hown : (c.threads.set i l')[i]? = some l' :=
    List.getElem?_set_self (List.getElem?_eq_some_iff.mp hget).1
  obtain ⟨hround, harrived, hentered, hpassed, hleft⟩ :=
    hstep.fences (h.round i _ hget) (h.arrived i _ hget)
  obtain ⟨hsignalled, hnet, hslots⟩ := hstep.signals
  -- The counts of the fences entered only grow, so what was past a fence stays so.
  have hgrows : ∀ r, c.shared.arrived r ≤ s'.arrived r := by
    intro r
    rw [harrived, Function.update_apply]
    split
    · rename_i hr
      rw [hr, h.arrived i l hget]
      exact hentered
    · exact le_rfl
  constructor
  case length => simpa using h.length
  case round =>
    intro j k hj
    rcases ThreadSystem.getElem?_set_cases hj with ⟨-, rfl⟩ | ⟨-, hk⟩
    · exact hround
    · exact h.round j k hk
  case arrived =>
    intro j k hj
    rw [harrived]
    rcases ThreadSystem.getElem?_set_cases hj with ⟨rfl, rfl⟩ | ⟨hne, hk⟩
    · exact Function.update_self ..
    · rw [Function.update_of_ne hne]
      exact h.arrived j k hk
  case fences =>
    intro j k hj r hr
    refine le_trans ?_ (hgrows r)
    rcases ThreadSystem.getElem?_set_cases hj with ⟨-, rfl⟩ | ⟨-, hk⟩
    · rcases hleft with hsame | hall
      · rw [hsame]
        exact h.fences i l hget r hr
      · exact hall r hr
    · exact h.fences j k hk r hr
  case signalled =>
    intro j k hj x hx
    rcases ThreadSystem.getElem?_set_cases hj with ⟨-, rfl⟩ | ⟨-, hk⟩
    · have hold : ∀ x ∈ l.signalled, cfg.minShift ≤ x.1 ∧
          3 * (x.1 - cfg.minShift) + 3 ≤ k.passed cfg := by
        intro x hx
        obtain ⟨hmin, hle⟩ := h.signalled i l hget x hx
        exact ⟨hmin, hle.trans hpassed⟩
      rcases hsignalled with hsame | ⟨hpast, r, hmore⟩
      · rw [hsame] at hx
        exact hold x hx
      · rw [hmore] at hx
        rcases List.mem_append.mp hx with hx | hx
        · exact hold x hx
        · rw [List.mem_singleton.mp hx]
          refine ⟨h.round i l hget, le_trans (le_of_eq ?_) hpassed⟩
          rw [SemaphoreRank.passed, hpast]
    · exact h.signalled j k hk x hx
  case net =>
    intro x hx
    rcases hnet x hx with hx | ⟨hsrc, hmem⟩
    · exact (h.net x hx).step hkept
    · rw [hsrc]
      exact ⟨l', hown, hmem⟩
  case slots =>
    intro j k hj r
    rcases ThreadSystem.getElem?_set_cases hj with ⟨rfl, rfl⟩ | ⟨-, hk⟩
    · rcases hslots r with hsame | hmem
      · rw [hsame]
        exact (h.slots j l hget r).imp_right fun h => h.step hkept
      · exact .inr ((h.net _ hmem).step hkept)
    · exact (h.slots j k hk r).imp_right fun h => h.step hkept

theorem SemaphoreInv.reachable (hc : (semaphoreRounds cfg).Reachable c) : SemaphoreInv cfg c := by
  refine hc.invariant (I := SemaphoreInv cfg) ?_ ?_
  · rintro ⟨s, ranks⟩ ⟨rfl, rfl⟩
    exact .start
  · rintro c _ - hinv ⟨i, hget, hstep⟩
    exact hinv.step hget hstep

/-- No slot holds a value of a later round. -/
theorem SemaphoreInv.slots_le (h : SemaphoreInv cfg c) {i : ℕ} {l : SemaphoreRank}
    (hget : c.threads[i]? = some l) (r : ℕ) : l.slots r ≤ l.round := by
  rcases h.slots i l hget r with hzero | ⟨m, hm, hmem⟩
  · rw [hzero]
    exact Nat.zero_le _
  · have hi : i < cfg.size := by
      rw [← h.length]
      exact (List.getElem?_eq_some_iff.mp hget).1
    -- The rank that signalled the value is past the fences of that round, which `i` has entered.
    obtain ⟨hmin, hpast⟩ := h.signalled r m hm _ hmem
    have hfences := h.fences r m hm i hi
    rw [h.arrived i l hget, SemaphoreRank.entered] at hfences
    have hle := l.pc.entered_le
    have hround := h.round i l hget
    simp only at hmin hpast
    omega

/-! ### The wait loop -/

/-- How a step goes on in the wait loop, and how it leaves it. -/
theorem SemaphoreStep.waits {i : ℕ} {s s' : SemaphoreShared} {l l' : SemaphoreRank}
    (h : SemaphoreStep cfg i s l s' l') :
    (∀ k, l'.pc = .read k → k = 0 ∨ l'.round = l.round ∧ (l.pc = .read k ∨
      ∃ r, k = r + 1 ∧ l.pc = .read r ∧ (r = i ∨ l.slots r = l.round))) ∧
    (l'.left = l.left ∨ l.pc = .read cfg.size ∧ l'.left = l.left ++ [l.round]) := by
  cases h with
  | waited hpc => exact ⟨fun k hk => .inl (SemaphorePc.read.inj hk).symm, .inl rfl⟩
  | readOther hpc hr hne hslot =>
    exact ⟨fun k hk => .inl (SemaphorePc.read.inj hk).symm, .inl rfl⟩
  | skipRead hpc hi =>
    refine ⟨fun k hk => .inr ⟨rfl, .inr ⟨i, ?_, hpc, .inl rfl⟩⟩, .inl rfl⟩
    exact (SemaphorePc.read.inj hk).symm
  | @readSame _ _ r hpc hr hne hslot =>
    refine ⟨fun k hk => .inr ⟨rfl, .inr ⟨r, ?_, hpc, .inr hslot⟩⟩, .inl rfl⟩
    exact (SemaphorePc.read.inj hk).symm
  | leave hpc => exact ⟨fun k hk => absurd hk (by simp), .inr ⟨hpc, rfl⟩⟩
  | deliver => exact ⟨fun k hk => .inr ⟨rfl, .inl hk⟩, .inl rfl⟩
  | @leaveFence _ _ f hpc hall =>
    exact ⟨fun k hk => absurd hk (by cases f <;> simp [RoundFence.after]), .inl rfl⟩
  | _ => exact ⟨fun k hk => absurd hk (by simp), .inl rfl⟩

/-- The slots read in the wait loop are those of ranks that have signalled the round, and so were
all slots when a wait loop was left. -/
def Waited (cfg : SemaphoreSetup) (c : Config SemaphoreShared SemaphoreRank) : Prop :=
  ∀ (i : ℕ) (l : SemaphoreRank), c.threads[i]? = some l →
    (∀ k, l.pc = .read k → ∀ r < k, r ≠ i → Signalled c r l.round i) ∧
      ∀ b ∈ l.left, ∀ r < cfg.size, r ≠ i → Signalled c r b i

/-- A slot that holds the value of its round was written by a signal, unless the value is zero. -/
theorem Waited.reachable (hmin : 0 < cfg.minShift) (hc : (semaphoreRounds cfg).Reachable c) :
    Waited cfg c := by
  refine hc.invariant (I := Waited cfg) ?_ ?_
  · rintro ⟨s, ranks⟩ ⟨-, rfl⟩ i l hget
    rw [List.eq_of_mem_replicate (List.mem_of_getElem? hget)]
    exact ⟨fun k hk => absurd hk (by simp [SemaphoreRank.start]),
      fun b hb => absurd hb List.not_mem_nil⟩
  · rintro c c' hreach hwaited hstep i l' hget'
    have hinv := SemaphoreInv.reachable hreach
    have hkept : ∀ {r b j}, Signalled c r b j → Signalled c' r b j := fun h => h.step hstep
    obtain ⟨t, hget, hstep⟩ := hstep
    rcases ThreadSystem.getElem?_set_cases hget' with ⟨rfl, rfl⟩ | ⟨-, hl⟩
    · -- the rank that steps: it reads the next slot, or leaves a round that it has waited for
      obtain ⟨hpc, hleft⟩ := hstep.waits
      obtain ⟨hread, hbefore⟩ := hwaited i _ hget
      constructor
      · intro k hk r hr hne
        rcases hpc k hk with rfl | ⟨hround, hstay | ⟨r', rfl, hat, hslot⟩⟩
        · exact absurd hr r.not_lt_zero
        · rw [hround]
          exact hkept (hread k hstay r hr hne)
        · rw [hround]
          rcases Nat.lt_succ_iff_lt_or_eq.mp hr with hr | rfl
          · exact hkept (hread r' hat r hr hne)
          · rcases hslot with rfl | hslot
            · exact absurd rfl hne
            · -- The round is not zero, so the slot was written.
              have hround' := hinv.round i _ hget
              rcases hinv.slots i _ hget r with hzero | hsignalled
              · omega
              · rw [hslot] at hsignalled
                exact hkept hsignalled
      · intro b hb r hr hne
        rcases hleft with hsame | ⟨hat, hmore⟩
        · rw [hsame] at hb
          exact hkept (hbefore b hb r hr hne)
        · rw [hmore] at hb
          rcases List.mem_append.mp hb with hb | hb
          · exact hkept (hbefore b hb r hr hne)
          · rw [List.mem_singleton.mp hb]
            exact hkept (hread cfg.size hat r hr hne)
    · -- the other ranks: what has been signalled to them stays so
      obtain ⟨hread, hbefore⟩ := hwaited i l' hl
      exact ⟨fun k hk r hr hne => hkept (hread k hk r hr hne),
        fun b hb r hr hne => hkept (hbefore b hb r hr hne)⟩

/-- With no round of shift zero the rounds synchronise the ranks. -/
theorem roundsSynchronised_of_pos (hmin : 0 < cfg.minShift)
    (hc : (semaphoreRounds cfg).Reachable c) : RoundsSynchronised cfg c := by
  intro i l hget
  refine ⟨(Waited.reachable hmin hc i l hget).2, fun k _ r _ _ => ?_⟩
  exact (SemaphoreInv.reachable hc).slots_le hget r

/-! ### A round of shift zero -/

/-- A rank of the first round that nobody has signalled anything to. -/
def SemaphoreRank.startAt (cfg : SemaphoreSetup) (pc : SemaphorePc) : SemaphoreRank :=
  { SemaphoreRank.start cfg with pc }

/-- All ranks, one after the other, go on to the next fence and enter it. -/
theorem exists_all_at {n : ℕ} {pc pc' : SemaphorePc} (hc : (semaphoreRounds cfg).Reachable c)
    (hlength : c.threads.length = cfg.size) (hpc : ∀ l ∈ c.threads, l = .startAt cfg pc)
    (harrived : ∀ r < cfg.size, c.shared.arrived r = n)
    (hrun : ∀ i s, (∀ r < cfg.size, n ≤ s.arrived r) → s.arrived i = n →
      (semaphoreRounds cfg).Alone i (s, .startAt cfg pc)
        ({ s with arrived := Function.update s.arrived i (n + 1) }, .startAt cfg pc')) :
    ∃ c', (semaphoreRounds cfg).Reachable c' ∧ c'.threads.length = cfg.size ∧
      (∀ l ∈ c'.threads, l = .startAt cfg pc') ∧ ∀ r < cfg.size, c'.shared.arrived r = n + 1 := by
  -- after `k` ranks, the first `k` have entered one fence more
  obtain ⟨c', hc', hlength', hall, hpc'⟩ := hc.each
    (P := fun l => l = .startAt cfg pc) (Q := fun _ l => l = .startAt cfg pc')
    (I := fun k s => ∀ r < cfg.size, s.arrived r = if r < k then n + 1 else n)
    (by simpa using harrived) hpc (by
      rintro i s l hi hs rfl
      rw [hlength] at hi
      refine ⟨_, _, hrun i s (fun r hr => ?_) (by rw [hs i hi, if_neg (lt_irrefl i)]), ?_, rfl⟩
      · rw [hs r hr]
        split <;> omega
      · intro r hr
        simp only [Function.update_apply]
        split
        · rename_i heq
          rw [heq, if_pos (Nat.lt_succ_self i)]
        · rw [hs r hr]
          split <;> split <;> omega)
  rw [hlength] at hlength'
  refine ⟨c', hc', hlength', fun l hl => ?_, fun r hr => ?_⟩
  · obtain ⟨i, hget⟩ := List.mem_iff_getElem?.mp hl
    exact hpc' i l hget
  · rw [hall r hr, hlength, if_pos hr]

/-- A rank alone signals the ranks below `k`. -/
theorem alone_signals (cfg : SemaphoreSetup) (i : ℕ) (s : SemaphoreShared) {l : SemaphoreRank}
    {k : ℕ} (hpc : l.pc = .signal 0) (hk : k ≤ cfg.size) :
    ∃ s' l', (semaphoreRounds cfg).Alone i (s, l) (s', l') ∧ l'.pc = .signal k ∧
      l'.round = l.round ∧ l'.slots = l.slots := by
  induction k with
  | zero => exact ⟨s, l, .refl i _, hpc, rfl, rfl⟩
  | succ k ih =>
    obtain ⟨s', l', hrun, hpc', hround, hslots⟩ := ih (by omega)
    by_cases hki : k = i
    · subst hki
      exact ⟨_, _, hrun.step (.skipSignal hpc' hk), rfl, hround, hslots⟩
    · exact ⟨_, _, hrun.step (.signal hpc' hk hki), rfl, hround, hslots⟩

/-- A rank alone reads the slots below `k`, when all of them have the value of the round. -/
theorem alone_reads (cfg : SemaphoreSetup) (i : ℕ) (s : SemaphoreShared) {l : SemaphoreRank} {k : ℕ}
    (hpc : l.pc = .read 0) (hslots : ∀ r, l.slots r = l.round) (hk : k ≤ cfg.size) :
    (semaphoreRounds cfg).Alone i (s, l) (s, { l with pc := .read k }) := by
  induction k with
  | zero =>
    rw [← hpc]
    exact .refl i _
  | succ k ih =>
    by_cases hki : k = i
    · subst hki
      exact (ih (by omega)).step (.skipRead rfl hk)
    · exact (ih (by omega)).step (.readSame rfl hk hki (hslots k))

/-- A rank alone enters the fence it is at. -/
theorem alone_enter {i n : ℕ} {s : SemaphoreShared} {pc : SemaphorePc} {f : RoundFence}
    (hn : s.arrived i = n)
    (hrun : (semaphoreRounds cfg).Alone i (s, .startAt cfg pc) (s, .startAt cfg (.fence f))) :
    (semaphoreRounds cfg).Alone i (s, .startAt cfg pc)
      ({ s with arrived := Function.update s.arrived i (n + 1) }, .startAt cfg (.inFence f)) := by
  rw [← hn]
  exact hrun.step (.enterFence rfl)

/-- All ranks can be in the last fence of a round of shift zero. -/
theorem exists_in_last_fence (hmin : cfg.minShift = 0) :
    ∃ c n, (semaphoreRounds cfg).Reachable c ∧ c.threads.length = cfg.size ∧
      (∀ l ∈ c.threads, l = .startAt cfg (.inFence .afterWrites)) ∧
        ∀ r < cfg.size, c.shared.arrived r = n := by
  have hstart : (semaphoreRounds cfg).Reachable
      ⟨⟨[], fun _ => 0⟩, List.replicate cfg.size (.start cfg)⟩ := .start ⟨rfl, rfl⟩
  -- all ranks come to a fence, and from one to the next, one rank after the other
  obtain ⟨c₁, hc₁, hlength₁, hpc₁, harrived₁⟩ := exists_all_at hstart List.length_replicate
    (fun l hl => List.eq_of_mem_replicate hl) (fun _ _ => rfl) fun i s _ hn => by
      have hround : (SemaphoreRank.start cfg).round ≤ cfg.maxShift := by
        show cfg.minShift ≤ cfg.maxShift
        rw [hmin]
        exact Nat.zero_le _
      have hfirst : SemaphoreStep cfg i s (.start cfg) s
          (.startAt cfg (.fence .beforeWarmup)) := .enterRound rfl hround
      exact alone_enter hn ((ThreadSystem.Alone.refl i _).step hfirst)
  obtain ⟨c₂, hc₂, hlength₂, hpc₂, harrived₂⟩ := exists_all_at hc₁ hlength₁ hpc₁ harrived₁
    fun i s hall hn => by
      have hleave : SemaphoreStep cfg i s (.startAt cfg (.inFence .beforeWarmup)) s
          (.startAt cfg .warmup) := .leaveFence (f := .beforeWarmup) rfl (by rw [hn]; exact hall)
      have hnext : SemaphoreStep cfg i s (.startAt cfg .warmup) s
          (.startAt cfg (.fence .beforeWrites)) := .warmupDone rfl
      exact alone_enter hn (((ThreadSystem.Alone.refl i _).step hleave).step hnext)
  obtain ⟨c₃, hc₃, hlength₃, hpc₃, harrived₃⟩ := exists_all_at hc₂ hlength₂ hpc₂ harrived₂
    fun i s hall hn => by
      have hleave : SemaphoreStep cfg i s (.startAt cfg (.inFence .beforeWrites)) s
          (.startAt cfg .writes) := .leaveFence (f := .beforeWrites) rfl (by rw [hn]; exact hall)
      have hnext : SemaphoreStep cfg i s (.startAt cfg .writes) s
          (.startAt cfg (.fence .afterWrites)) := .writesDone rfl
      exact alone_enter hn (((ThreadSystem.Alone.refl i _).step hleave).step hnext)
  exact ⟨c₃, _, hc₃, hlength₃, hpc₃, harrived₃⟩

/-- The slots of a round of shift zero have its value from the beginning, so a rank leaves its wait
loop with no signal from anybody. -/
theorem exists_unsynchronised (cfg : SemaphoreSetup) (hsize : 2 ≤ cfg.size)
    (hmin : cfg.minShift = 0) :
    ∃ c, (semaphoreRounds cfg).Reachable c ∧ ¬RoundsSynchronised cfg c := by
  obtain ⟨c, n, hc, hlength, hpc, harrived⟩ := exists_in_last_fence hmin
  have hzero : 0 < c.threads.length := by omega
  have hone : 1 < c.threads.length := by omega
  have hat : ∀ i (hi : i < c.threads.length),
      c.threads[i]? = some (.startAt cfg (.inFence .afterWrites)) := by
    intro i hi
    rw [List.getElem?_eq_getElem hi, hpc _ (List.getElem_mem hi)]
  -- Rank 0 goes on alone: it leaves the fence, signals, and finds its slots zero.
  have hleave : SemaphoreStep cfg 0 c.shared (.startAt cfg (.inFence .afterWrites)) c.shared
      (.startAt cfg .check) := by
    refine .leaveFence (f := .afterWrites) rfl fun r hr => ?_
    rw [harrived r hr, harrived 0 (by omega)]
  have hchecked : SemaphoreStep cfg 0 c.shared (.startAt cfg .check) c.shared
      (.startAt cfg (.signal 0)) := .checked rfl
  obtain ⟨s, l, hsignals, hpc₁, hround, hslots⟩ := alone_signals cfg 0 c.shared
    (l := .startAt cfg (.signal 0)) rfl le_rfl
  have hend : SemaphoreStep cfg 0 s l s { l with pc := .waitWrites } := .signalEnd hpc₁
  have hwaited : SemaphoreStep cfg 0 s { l with pc := .waitWrites } s { l with pc := .read 0 } :=
    .waited rfl
  have hreads := alone_reads cfg 0 s (l := { l with pc := .read 0 }) rfl (fun r => by
    show l.slots r = l.round
    rw [hslots, hround]
    exact hmin.symm) le_rfl
  have hrun := ((((ThreadSystem.Alone.refl 0 _).step hleave).step hchecked).trans
    ((hsignals.step hend).step hwaited)).trans hreads
  have hreach := hc.alone (hat 0 hzero) (hrun.step (.leave rfl))
  refine ⟨_, hreach, fun hall => ?_⟩
  obtain ⟨m, hm, hmem⟩ := (hall 0 _ (List.getElem?_set_self hzero)).1 l.round (by simp) 1
    (by omega) Nat.one_ne_zero
  -- Rank 1 is still in the fence.
  rw [List.getElem?_set_ne Nat.zero_ne_one, hat 1 hone] at hm
  rw [← Option.some.inj hm] at hmem
  exact List.not_mem_nil hmem

/-- The rounds synchronise the ranks in every run if and only if no round has shift zero. -/
theorem roundsSynchronised_iff (cfg : SemaphoreSetup) (hsize : 2 ≤ cfg.size) :
    (∀ c, (semaphoreRounds cfg).Reachable c → RoundsSynchronised cfg c) ↔ 0 < cfg.minShift := by
  constructor
  · intro hall
    by_contra hmin
    obtain ⟨c, hc, hwrong⟩ := exists_unsynchronised cfg hsize (Nat.eq_zero_of_not_pos hmin)
    exact hwrong (hall c hc)
  · intro hmin c hc
    exact roundsSynchronised_of_pos hmin hc

/-- Two ranks are synchronised in the rounds of shifts 3 to 20, and not in those of 0 to 20. -/
theorem roundsSynchronised_two :
    (∀ c, (semaphoreRounds ⟨2, 3, 20⟩).Reachable c → RoundsSynchronised ⟨2, 3, 20⟩ c) ∧
      ¬∀ c, (semaphoreRounds ⟨2, 0, 20⟩).Reachable c → RoundsSynchronised ⟨2, 0, 20⟩ c := by
  constructor
  · exact (roundsSynchronised_iff ⟨2, 3, 20⟩ le_rfl).mpr (by decide)
  · intro hall
    exact absurd ((roundsSynchronised_iff ⟨2, 0, 20⟩ le_rfl).mp hall) (by decide)

/-- With the default shifts the first round does not wait for anybody. -/
theorem not_roundsSynchronised_two :
    ¬∀ c, (semaphoreRounds ⟨2, 0, 20⟩).Reachable c → RoundsSynchronised ⟨2, 0, 20⟩ c := by
  intro hall
  obtain ⟨c, hc, hwrong⟩ := exists_unsynchronised ⟨2, 0, 20⟩ (by decide) rfl
  exact hwrong (hall c hc)

end LibFatbat
