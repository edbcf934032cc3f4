import LibFatbat.Communicator.Benchmark

/-!
# The windows of the benchmarks

Main result: `benchmark_window`. As long as no counter wraps around, nothing is in flight when a
series begins or ends, so that what is timed is the series, and the counters never mismatch.
-/

open Concurrent

namespace LibFatbat

variable {cfg : Setup} {b : BenchSetup} {i : ℕ} {s s' : Shared} {l l' : BenchThread} {k : Kind}
  {c : Config Shared BenchThread}

/-! ### Runs -/

theorem onPath_of_benchmark (hc : (benchmark cfg b).Reachable c) (hget : c.threads[i]? = some l) :
    ∀ g ∈ l.stack, g.OnPath cfg := by
  refine onPath_of_reachable (reachable_exceptionFree hc).of_restrict i l.stack ?_
  simp [Config.map, hget]

/-- The threads but the first one poll, and count nothing. -/
theorem quiet_of_reachable (hc : (benchmark cfg b).Reachable c) :
    ∀ i l, c.threads[i]? = some l → (i ≠ 0 → l.pc = .poller) ∧ l.Quiet := by
  refine hc.forall_threads (P := fun i _ l => (i ≠ 0 → l.pc = .poller) ∧ l.Quiet) ?_ ?_ ?_
  · rintro c ⟨-, pollers, completeBefore, postedBefore, hthreads⟩ i l hget
    rw [hthreads] at hget
    cases i with
    | zero =>
      obtain rfl := Option.some.inj hget
      exact ⟨fun h => absurd rfl h, fun _ _ => rfl⟩
    | succ i =>
      obtain rfl := List.eq_of_mem_replicate (List.mem_of_getElem? hget)
      exact ⟨fun _ => rfl, fun _ _ => rfl⟩
  · intro c i l s' l' hc hget ⟨hpoller, hquiet⟩ h
    exact ⟨fun hi => h.poller (hpoller hi), h.quiet (onPath_of_benchmark hc hget) hquiet⟩
  · intro c i j l m s' l' _ _ _ _ _ hm _
    exact hm

/-- The counters are small in a run that has reached a state where they are. -/
theorem countersSmall (hc : (benchmark cfg b).Reachable c)
    (hsmall : c.shared.core.count (Event.isCountedOf k) < 2 ^ 32) :
    CountersSmall k c.shared.core := by
  have hcomm := (reachable_exceptionFree hc).of_restrict
  have hcounters := counters_eq (reachable_lifecycle hcomm) k
  exact ⟨hcounters.1, hcounters.2, count_completed_le hcomm k, hsmall⟩

theorem BenchStep.log_suffix (h : BenchStep cfg b i s l s' l') : s.core.log <:+ s'.core.log := by
  cases h with
  | run _ h => exact (CommStep.run h).shared.log_suffix
  | call _ _ _ _ _ _ h =>
    have hstep : RunStep cfg i s [.main] s' _ := .top h
    exact (CommStep.run hstep).shared.log_suffix
  | _ => exact List.suffix_refl _

theorem sound_of_benchmark (hc : (benchmark cfg b).Reachable c)
    (hsmall : ∀ k ∈ b.benchmark.kinds, c.shared.core.count (Event.isCountedOf k) < 2 ^ 32) :
    ∀ l, c.threads[0]? = some l → ∀ k ∈ b.benchmark.kinds,
      l.Sound b k (l.posted k c.shared.core) (c.shared.core.inFlight k) := by
  induction hc with
  | start h =>
    obtain ⟨hshared, pollers, completeBefore, postedBefore, hthreads⟩ := h
    intro l hget k hk
    rw [hthreads] at hget
    obtain rfl := Option.some.inj hget
    rw [hshared]
    rfl
  | @step c c' hc h ih =>
    obtain @⟨l, l', s', i, hget, h⟩ := h
    -- the counters were small before the step too
    have hbefore : ∀ k ∈ b.benchmark.kinds,
        c.shared.core.count (Event.isCountedOf k) < 2 ^ 32 :=
      fun k hk => (count_mono h.log_suffix _).trans_lt (hsmall k hk)
    have hmain := ih hbefore
    obtain ⟨hpoller, hquiet⟩ := quiet_of_reachable hc i l hget
    have hpath := onPath_of_benchmark hc hget
    intro l₀ hl₀
    rcases ThreadSystem.getElem?_set_cases hl₀ with ⟨rfl, rfl⟩ | ⟨hne, hl₀⟩
    · exact h.sound hpath hquiet (fun k hk => countersSmall hc (hbefore k hk)) (hmain l hget)
    · intro k hk
      obtain ⟨hcount, hflight⟩ := h.of_poller (hpoller hne.symm) hpath hquiet k
      have hl := hmain l₀ hl₀ k hk
      rw [BenchThread.posted] at hl ⊢
      rw [hcount]
      exact hl.mono (fun _ => hflight) l₀.stack

/-- Nothing of kind `k` is outstanding at `t0` and at `t1`, and at `t1` the complete counter has
advanced by the number of operations of the series. -/
def SeriesWindow (b : BenchSetup) (c : Config Shared BenchThread) (l : BenchThread) (k : Kind) :
    Prop :=
  (l.pc.isBoundary → outstanding k (c.map BenchThread.stack) = 0) ∧
    (l.pc = .fenceAfter →
      (c.shared.core.complete k - l.completeBefore k).toNat = b.iterations * (b.size - 1))

theorem seriesWindow_of_mem (hc : (benchmark cfg b).Reachable c) (hget : c.threads[0]? = some l)
    (hsmall : ∀ k ∈ b.benchmark.kinds, c.shared.core.count (Event.isCountedOf k) < 2 ^ 32)
    (hk : k ∈ b.benchmark.kinds) : SeriesWindow b c l k := by
  have hlk := sound_of_benchmark hc hsmall l hget k hk
  have hquiet := (quiet_of_reachable hc 0 l hget).2
  refine ⟨fun hpc => ?_, fun hpc => ?_⟩
  · -- what is not in flight is not outstanding
    have hnone := hlk.inFlight_of_isBoundary hpc
    have hsum := accounting_eq (reachable_lifecycle (reachable_exceptionFree hc).of_restrict) k
    simp only [Core.inFlight, Config.map] at hnone hsum
    simp only [outstanding, Config.map]
    omega
  · simp only [BenchThread.Sound, hpc] at hlk
    obtain ⟨hseries, hnone⟩ := hlk
    rw [BenchThread.posted, hquiet (by rw [hpc]; rfl) k, Nat.add_zero] at hseries
    obtain ⟨n, ⟨-, hbefore⟩, heq⟩ := hseries
    have hsmall' := countersSmall hc (hsmall k hk)
    rw [Nat.add_zero] at heq
    rw [hbefore rfl, hsmall'.complete_eq hnone, heq,
      WrappingCounter.toNat_ofNat_sub_ofNat (Nat.le_add_right ..) (by have := hsmall k hk; omega),
      Nat.add_sub_cancel_left, length_series]
    rfl

/-- As long as no counter wraps around, and however the threads interleave: nothing is in flight
when a timed series begins or ends, at the end the complete counters have advanced by the number of
operations of the series, and the benchmark never finds that its counters mismatch. -/
theorem benchmark_window (hc : (benchmark cfg b).Reachable c) (hget : c.threads[0]? = some l)
    (hsmall : ∀ k ∈ b.benchmark.kinds, c.shared.core.count (Event.isCountedOf k) < 2 ^ 32) :
    l.pc ≠ .counterMismatch ∧
      (b.benchmark = .sendRecv → SeriesWindow b c l .send ∧ SeriesWindow b c l .recv) ∧
      (b.benchmark = .rdmaRead → SeriesWindow b c l .read) ∧
      (b.benchmark = .rdmaWrite ∨ b.benchmark = .rdmaWritedata → SeriesWindow b c l .write) := by
  have hwindow {k : Kind} (hk : k ∈ b.benchmark.kinds) := seriesWindow_of_mem hc hget hsmall hk
  refine ⟨fun hpc => ?_, fun hb => ⟨hwindow ?_, hwindow ?_⟩, fun hb => hwindow ?_, fun hb =>
    hwindow ?_⟩
  · obtain ⟨k, hk⟩ := b.benchmark.exists_mem_kinds
    have hlk := sound_of_benchmark hc hsmall l hget k hk
    simp only [BenchThread.Sound, hpc] at hlk
  · exact hb ▸ .head _
  · exact hb ▸ .tail _ (.head _)
  · exact hb ▸ .head _
  · rcases hb with hb | hb
    · exact hb ▸ .head _
    · exact hb ▸ .head _

/-- A thread in a call goes on with a step of its running frame. -/
theorem benchmark_next {f : Frame} {fs rest : List Frame} (hc : (benchmark cfg b).Reachable c)
    (i : ℕ) (hget : c.threads[i]? = some l) (hstack : l.stack = f :: rest)
    (hcall : f :: rest ≠ [.main]) (hreturns : f.isUser → fs.length ≤ 1)
    (h : FrameStep cfg i c.shared f s' fs) :
    (benchmark cfg b).Reachable ⟨s', c.threads.set i { l with stack := fs ++ rest }⟩ := by
  refine hc.next i hget (.run (by rwa [hstack]) (by rw [hstack]; exact .top h) fun g hg huser => ?_)
  rw [hstack] at hg ⊢
  obtain rfl := Option.some.inj hg
  have hlength := hreturns huser
  rw [List.length_append, List.length_cons]
  omega

/-- The first of two ranks reads once from the other. -/
def oneRead : BenchSetup where
  benchmark := .rdmaRead
  rank := 0
  size := 2
  iterations := 1
  minShift := 0
  maxShift := 0
  keyLength _ := 1
  rank_lt := Nat.two_pos
  two_le_size := le_rfl
  size_eq_two := nofun
  iterations_pos := Nat.one_pos
  minShift_le := le_rfl

/-- After the warm-up, which has read once, the timed series begins. -/
theorem reachable_one_read :
    ∃ (c : Config Shared BenchThread) (l : BenchThread),
      (benchmark ⟨.other, .safe, .single, false, 64, 16⟩ oneRead).Reachable c ∧
        c.threads[0]? = some l ∧ l.pc = .before true [] false ∧
          ∀ k, c.shared.core.count (Event.isCountedOf k) = if k = .read then 1 else 0 := by
  have h0 : (benchmark ⟨.other, .safe, .single, false, 64, 16⟩ oneRead).Reachable
      ⟨.start, [⟨[.main], .fence false, 0, fun _ => 0#32, fun _ => 0#32⟩,
        ⟨[.main], .poller, 0, fun _ => 0#32, fun _ => 0#32⟩]⟩ :=
    .start ⟨rfl, 1, _, _, rfl⟩
  -- the warm-up posts one read
  have h1 := h0.next 0 rfl (.enter rfl)
  have h2 := h1.next 0 rfl (.readPosted rfl)
  have h3 := h2.next 0 rfl (.begin rfl)
  have h4 := h3.next 0 rfl (.valid rfl fun _ => by decide)
  have h5 := h4.next 0 rfl (.throttle rfl (.readPosted rfl))
  have h6 := h5.next 0 rfl (.throttle rfl (.readComplete rfl))
  have h7 := h6.next 0 rfl (.throttle rfl (.next rfl (by decide)))
  have h8 := h7.next 0 rfl (.throttled rfl (.ret rfl))
  have h9 := h8.next 0 rfl (.call
    (x := ⟨0, .read, 1#64, 0#64, 1, 0, 0#64, 0#64, 0#64, false⟩) rfl rfl rfl rfl rfl rfl
    (.call rfl rfl))
  have h10 := benchmark_next h9 0 rfl rfl nofun nofun .acquire
  have h11 := benchmark_next h10 0 rfl rfl nofun nofun .setCallback
  have h12 := benchmark_next h11 0 rfl rfl nofun nofun .count
  have h13 := benchmark_next h12 0 rfl rfl nofun nofun (.executeAccepted 0 rfl)
  have h14 := benchmark_next h13 0 rfl rfl nofun nofun .ret
  have h15 := h14.next 0 rfl (.next rfl rfl)
  have h16 := h15.next 0 rfl (.posted rfl)
  -- the polling thread finds it complete
  have h17 := h16.next 1 rfl (.poll rfl rfl)
  have h18 := benchmark_next h17 1 rfl rfl nofun nofun (.txBypass rfl)
  have h19 := benchmark_next h18 1 rfl rfl nofun nofun
    (.txEntries [⟨⟨⟨0, .read, 1#64, 0#64, 1, 0, 0#64, 0#64, 0#64, false⟩, 0⟩, fiRead ||| fiRma,
      nofun, rfl⟩] 0 (by decide) rfl)
  have h20 := benchmark_next h19 1 rfl rfl nofun nofun (.txEntry rfl)
  have h21 := benchmark_next h20 1 rfl rfl nofun nofun (.skipCb rfl)
  -- the wait returns, and the series of the timed reads is begun
  have h22 := h21.next 0 rfl (.waitNext rfl (by decide))
  have h23 := h22.next 0 rfl (.waited rfl)
  have h24 := h23.next 0 rfl (.enter rfl)
  have h25 := h24.next 0 rfl (.readComplete rfl)
  have h26 := h25.next 0 rfl (.readPosted rfl)
  exact ⟨_, _, h26, rfl, rfl, fun k => by cases k <;> decide⟩

/-- The first of two ranks receives and sends once. -/
def oneMessage : BenchSetup where
  benchmark := .sendRecv
  rank := 0
  size := 2
  iterations := 1
  minShift := 7
  maxShift := 7
  keyLength _ := 0
  rank_lt := Nat.two_pos
  two_le_size := le_rfl
  size_eq_two _ := rfl
  iterations_pos := Nat.one_pos
  minShift_le := le_rfl

/-- After the warm-up, which has received and sent once, the timed series begins. -/
theorem reachable_one_message :
    ∃ (c : Config Shared BenchThread) (l : BenchThread),
      (benchmark ⟨.other, .safe, .single, false, 64, 16⟩ oneMessage).Reachable c ∧
        c.threads[0]? = some l ∧ l.pc = .before true [] false ∧
          ∀ k, c.shared.core.count (Event.isCountedOf k) =
            if k = .send ∨ k = .recv then 1 else 0 := by
  have h0 : (benchmark ⟨.other, .safe, .single, false, 64, 16⟩ oneMessage).Reachable
      ⟨.start, [⟨[.main], .fence false, 7, fun _ => 0#32, fun _ => 0#32⟩,
        ⟨[.main], .poller, 7, fun _ => 0#32, fun _ => 0#32⟩]⟩ :=
    .start ⟨rfl, 1, _, _, rfl⟩
  have h1 := h0.next 0 rfl (.enter rfl)
  have h2 := h1.next 0 rfl (.readPosted rfl)
  have h3 := h2.next 0 rfl (.readPosted rfl)
  have h4 := h3.next 0 rfl (.begin rfl)
  have h5 := h4.next 0 rfl (.valid rfl nofun)
  have h6 := h5.next 0 rfl (.throttle rfl (.readPosted rfl))
  have h7 := h6.next 0 rfl (.throttle rfl (.readComplete rfl))
  have h8 := h7.next 0 rfl (.throttle rfl (.next rfl (by decide)))
  have h9 := h8.next 0 rfl (.throttle rfl (.readPosted rfl))
  have h10 := h9.next 0 rfl (.throttle rfl (.readComplete rfl))
  have h11 := h10.next 0 rfl (.throttle rfl (.next rfl (by decide)))
  have h12 := h11.next 0 rfl (.throttled rfl (.ret rfl))
  have h13 := h12.next 0 rfl (.call
    (x := ⟨0, .recv, 1#64, 0#64, 128, 0, 0#64, 0#64, 0#64, false⟩) rfl rfl rfl rfl rfl rfl
    (.call rfl rfl))
  have h14 := benchmark_next h13 0 rfl rfl nofun nofun .count
  have h15 := benchmark_next h14 0 rfl rfl nofun nofun .acquire
  have h16 := benchmark_next h15 0 rfl rfl nofun nofun .setCallback
  have h17 := benchmark_next h16 0 rfl rfl nofun nofun (.executeAccepted 0 rfl)
  have h18 := benchmark_next h17 0 rfl rfl nofun nofun .ret
  have h19 := h18.next 0 rfl (.call
    (x := ⟨1, .send, 1#64, 0#64, 128, 1, 0#64, 0#64, 0#64, false⟩) rfl rfl rfl rfl rfl rfl
    (.call rfl rfl))
  have h20 := benchmark_next h19 0 rfl rfl nofun nofun .count
  have h21 := benchmark_next h20 0 rfl rfl nofun nofun .acquire
  have h22 := benchmark_next h21 0 rfl rfl nofun nofun .setCallback
  have h23 := benchmark_next h22 0 rfl rfl nofun nofun (.executeAccepted 0 rfl)
  have h24 := benchmark_next h23 0 rfl rfl nofun nofun .ret
  have h25 := h24.next 0 rfl (.next rfl rfl)
  have h26 := h25.next 0 rfl (.posted rfl)
  -- the polling thread finds both complete
  have h27 := h26.next 1 rfl (.poll rfl rfl)
  have h28 := benchmark_next h27 1 rfl rfl nofun nofun (.txBypass rfl)
  have h29 := benchmark_next h28 1 rfl rfl nofun nofun
    (.txEntries [⟨⟨⟨1, .send, 1#64, 0#64, 128, 1, 0#64, 0#64, 0#64, false⟩, 1⟩,
      fiSend ||| fiTagged, nofun, documented_send⟩]
      {⟨⟨0, .recv, 1#64, 0#64, 128, 0, 0#64, 0#64, 0#64, false⟩, 0⟩} (by decide) rfl)
  have h30 := benchmark_next h29 1 rfl rfl nofun nofun (.txEntry rfl)
  have h31 := benchmark_next h30 1 rfl rfl nofun nofun (.skipCb rfl)
  have h32 := benchmark_next h31 1 rfl rfl nofun nofun .clear
  have h33 := benchmark_next h32 1 rfl rfl nofun nofun (.push true)
  have h34 := benchmark_next h33 1 rfl rfl nofun nofun .txDone
  have h35 := benchmark_next h34 1 rfl rfl nofun nofun (.rxBypass rfl)
  have h36 := benchmark_next h35 1 rfl rfl nofun nofun
    (.rxEntries [.recv ⟨⟨0, .recv, 1#64, 0#64, 128, 0, 0#64, 0#64, 0#64, false⟩, 0⟩
      (fiRecv ||| fiTagged) rfl documented_recv] 0 (by decide) rfl)
  have h37 := benchmark_next h36 1 rfl rfl nofun nofun (.rxEntry rfl)
  have h38 := h37.next 0 rfl (.waitNext rfl (by decide))
  have h39 := h38.next 0 rfl (.waitNext rfl (by decide))
  have h40 := h39.next 0 rfl (.waited rfl)
  have h41 := h40.next 0 rfl (.enter rfl)
  have h42 := h41.next 0 rfl (.readComplete rfl)
  have h43 := h42.next 0 rfl (.readPosted rfl)
  have h44 := h43.next 0 rfl (.readComplete rfl)
  have h45 := h44.next 0 rfl (.readPosted rfl)
  exact ⟨_, _, h45, rfl, rfl, fun k => by cases k <;> decide⟩

/-- The timed series of a read, and of a receive and a send, begin with nothing in flight. -/
theorem benchmark_window_one :
    (∃ (c : Config Shared BenchThread) (l : BenchThread),
      (benchmark ⟨.other, .safe, .single, false, 64, 16⟩ oneRead).Reachable c ∧
        c.threads[0]? = some l ∧ l.pc = .before true [] false ∧
          c.shared.core.count (Event.isCountedOf .read) = 1 ∧
            outstanding .read (c.map BenchThread.stack) = 0) ∧
      ∃ (c : Config Shared BenchThread) (l : BenchThread),
        (benchmark ⟨.other, .safe, .single, false, 64, 16⟩ oneMessage).Reachable c ∧
          c.threads[0]? = some l ∧ l.pc = .before true [] false ∧
            c.shared.core.count (Event.isCountedOf .send) = 1 ∧
              c.shared.core.count (Event.isCountedOf .recv) = 1 ∧
                outstanding .send (c.map BenchThread.stack) = 0 ∧
                  outstanding .recv (c.map BenchThread.stack) = 0 := by
  obtain ⟨c, l, hc, hget, hpc, hcount⟩ := reachable_one_read
  obtain ⟨c', l', hc', hget', hpc', hcount'⟩ := reachable_one_message
  have hsmall : ∀ k ∈ Benchmark.rdmaRead.kinds,
      c.shared.core.count (Event.isCountedOf k) < 2 ^ 32 := by
    intro k _
    rw [hcount]
    split <;> omega
  have hsmall' : ∀ k ∈ Benchmark.sendRecv.kinds,
      c'.shared.core.count (Event.isCountedOf k) < 2 ^ 32 := by
    intro k _
    rw [hcount']
    split <;> omega
  have hread := (benchmark_window hc hget hsmall).2.2.1 rfl
  obtain ⟨hsend, hrecv⟩ := (benchmark_window hc' hget' hsmall').2.1 rfl
  have hbegin : l.pc.isBoundary := by
    rw [hpc]
    rfl
  have hbegin' : l'.pc.isBoundary := by
    rw [hpc']
    rfl
  exact ⟨⟨c, l, hc, hget, hpc, hcount .read, hread.1 hbegin⟩,
    ⟨c', l', hc', hget', hpc', hcount' .send, hcount' .recv, hsend.1 hbegin', hrecv.1 hbegin'⟩⟩

end LibFatbat
