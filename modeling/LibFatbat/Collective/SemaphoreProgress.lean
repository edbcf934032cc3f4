import Mathlib.Order.WellFounded
import LibFatbat.Collective.SemaphoreRounds
import LibFatbat.Concurrent.Progress

/-!
# The end of the semaphore rounds

The rounds of the write benchmarks come to an end if no round has shift zero, or if it is the only
one (`exists_all_done`). With no round of shift zero, a rank does not leave a round before the
signals of the round have arrived, so those on their way to it are of the round that it is in
(`SignalsCurrent`).
-/

open Concurrent

namespace LibFatbat

variable {cfg : SemaphoreSetup} {c c' : Config SemaphoreShared SemaphoreRank}
  {s s' : SemaphoreShared} {l l' : SemaphoreRank} {i : ℕ}

/-! ### Where a rank is -/

/-- The ranks that the signals of the round are through with. -/
def SemaphorePc.sent (size : ℕ) : SemaphorePc → ℕ
  | .signal r => r
  | .waitWrites | .read _ => size
  | _ => 0

/-- The rounds in which a rank can be at a point of the loop, and the ranks it can be at. -/
def SemaphorePc.InBounds (cfg : SemaphoreSetup) (round : ℕ) : SemaphorePc → Prop
  | .loop => round ≤ cfg.maxShift + 1
  | .done => round = cfg.maxShift + 1
  | .signal r | .read r => r ≤ cfg.size ∧ round ≤ cfg.maxShift
  | _ => round ≤ cfg.maxShift

/-- What the place of rank `i` in the loop says about its lists. -/
structure SemaphoreRank.Placed (cfg : SemaphoreSetup) (i : ℕ) (l : SemaphoreRank) : Prop where
  bounds : l.pc.InBounds cfg l.round
  signalled : ∀ b r, (b, r) ∈ l.signalled ↔ r < cfg.size ∧ r ≠ i ∧
    (cfg.minShift ≤ b ∧ b < l.round ∨ b = l.round ∧ r < l.pc.sent cfg.size)
  left : ∀ b, cfg.minShift ≤ b → b < l.round → b ∈ l.left

theorem RoundFence.sent_after (f : RoundFence) (size : ℕ) : f.after.sent size = 0 := by
  cases f <;> rfl

theorem RoundFence.inBounds_after (f : RoundFence) (round : ℕ) :
    f.after.InBounds cfg round ↔ round ≤ cfg.maxShift := by
  cases f <;> rfl

/-- A rank stays in its place. -/
theorem SemaphoreStep.placed (h : SemaphoreStep cfg i s l s' l') (hmin : cfg.minShift ≤ l.round)
    (hplaced : l.Placed cfg i) : l'.Placed cfg i := by
  obtain ⟨hbounds, hsignalled, hleft⟩ := hplaced
  -- a step that stays in the round and signals nobody
  have hsame : ∀ pc : SemaphorePc, pc.InBounds cfg l.round →
      (∀ r, r ≠ i → (r < pc.sent cfg.size ↔ r < l.pc.sent cfg.size)) →
      SemaphoreRank.Placed cfg i { l with pc } := by
    intro pc hpc hsent
    refine ⟨hpc, fun b r => ?_, hleft⟩
    rw [hsignalled b r]
    refine and_congr_right fun _ => and_congr_right fun hne => ?_
    rw [hsent r hne]
  cases h with
  | enterRound hpc hround => exact hsame _ hround fun r _ => by rw [hpc]; rfl
  | finish hpc hround =>
    rw [hpc] at hbounds
    refine hsame _ ?_ fun r _ => by rw [hpc]; rfl
    exact le_antisymm hbounds (not_le.mp hround)
  | enterFence hpc =>
    rw [hpc] at hbounds
    exact hsame _ hbounds fun r _ => by rw [hpc]; rfl
  | @leaveFence _ _ f hpc =>
    rw [hpc] at hbounds
    exact hsame _ ((f.inBounds_after l.round).mpr hbounds) fun r _ => by rw [hpc, f.sent_after]; rfl
  | warmupDone hpc | writesDone hpc | mismatch hpc =>
    rw [hpc] at hbounds
    exact hsame _ hbounds fun r _ => by rw [hpc]; rfl
  | checked hpc =>
    rw [hpc] at hbounds
    exact hsame _ ⟨Nat.zero_le _, hbounds⟩ fun r _ => by rw [hpc]; rfl
  | skipSignal hpc hi =>
    rw [hpc] at hbounds
    refine hsame _ ⟨hi, hbounds.2⟩ fun r hne => ?_
    simp only [hpc, SemaphorePc.sent]
    omega
  | @signal _ _ r hpc hr hne =>
    rw [hpc] at hbounds
    refine ⟨⟨hr, hbounds.2⟩, fun b q => ?_, hleft⟩
    -- the new entry is the one that the place accounts for
    simp only [List.mem_append, List.mem_singleton, Prod.mk.injEq, hsignalled b q, hpc,
      SemaphorePc.sent]
    constructor
    · rintro (⟨hq, hqi, hold | ⟨hb, hlt⟩⟩ | ⟨hb, rfl⟩)
      · exact ⟨hq, hqi, .inl hold⟩
      · exact ⟨hq, hqi, .inr ⟨hb, Nat.lt_succ_of_lt hlt⟩⟩
      · exact ⟨hr, hne, .inr ⟨hb, Nat.lt_succ_self _⟩⟩
    · rintro ⟨hq, hqi, hold | ⟨hb, hlt⟩⟩
      · exact .inl ⟨hq, hqi, .inl hold⟩
      · rcases Nat.lt_succ_iff_lt_or_eq.mp hlt with hlt | heq
        · exact .inl ⟨hq, hqi, .inr ⟨hb, hlt⟩⟩
        · exact .inr ⟨hb, heq⟩
  | signalEnd hpc =>
    rw [hpc] at hbounds
    exact hsame _ hbounds.2 fun r _ => by rw [hpc]; rfl
  | waited hpc =>
    rw [hpc] at hbounds
    exact hsame _ ⟨Nat.zero_le _, hbounds⟩ fun r _ => by rw [hpc]; rfl
  | skipRead hpc hi =>
    rw [hpc] at hbounds
    exact hsame _ ⟨hi, hbounds.2⟩ fun r _ => by rw [hpc]; rfl
  | readSame hpc hr =>
    rw [hpc] at hbounds
    exact hsame _ ⟨hr, hbounds.2⟩ fun r _ => by rw [hpc]; rfl
  | readOther hpc =>
    rw [hpc] at hbounds
    exact hsame _ ⟨Nat.zero_le _, hbounds.2⟩ fun r _ => by rw [hpc]; rfl
  | leave hpc =>
    rw [hpc] at hbounds
    refine ⟨Nat.succ_le_succ hbounds.2, fun b r => ?_, fun b hb hlt => ?_⟩
    · -- the round that is left joins those before
      rw [hsignalled b r]
      refine and_congr_right fun hr => and_congr_right fun _ => ?_
      simp only [hpc, SemaphorePc.sent]
      omega
    · rcases Nat.lt_succ_iff_lt_or_eq.mp hlt with hlt | rfl
      · exact List.mem_append_left _ (hleft b hb hlt)
      · exact List.mem_append_right _ (List.mem_singleton_self _)
  | deliver => exact ⟨hbounds, hsignalled, hleft⟩

theorem SemaphoreRank.Placed.reachable (hshift : cfg.minShift ≤ cfg.maxShift)
    (hc : (semaphoreRounds cfg).Reachable c) (i : ℕ) (l : SemaphoreRank)
    (hget : c.threads[i]? = some l) : l.Placed cfg i := by
  refine hc.forall_threads (P := fun i _ l => l.Placed cfg i) ?_ ?_ ?_ i l hget
  · intro c hinit i l hget
    rw [hinit.2] at hget
    rw [List.eq_of_mem_replicate (List.mem_of_getElem? hget)]
    refine ⟨Nat.le_succ_of_le hshift, fun b r => ?_, fun b hb hlt => absurd hb (not_le.mpr hlt)⟩
    simp only [SemaphoreRank.start, SemaphorePc.sent, List.not_mem_nil, false_iff]
    omega
  · intro c i l s' l' hc hget hplaced hstep
    exact hstep.placed ((SemaphoreInv.reachable hc).round i l hget) hplaced
  · intro c i j l k s' l' _ _ _ _ _ hplaced _
    exact hplaced

/-! ### What a step does to the signals -/

/-- A step leaves the signals alone, or sends one, or leaves a round, or delivers a signal. -/
theorem SemaphoreStep.kinds (h : SemaphoreStep cfg i s l s' l') :
    (s'.net = s.net ∧ l'.slots = l.slots ∧ l'.signalled = l.signalled ∧ l'.round = l.round) ∨
    (∃ r, l.pc = .signal r ∧ r < cfg.size ∧ r ≠ i ∧ s'.net = s.net ++ [⟨i, r, l.round⟩] ∧
      l' = { l with pc := .signal (r + 1), signalled := l.signalled ++ [(l.round, r)] }) ∨
    (l.pc = .read cfg.size ∧ s' = s ∧
      l' = { l with pc := .loop, round := l.round + 1, left := l.left ++ [l.round] }) ∨
    ∃ pre post src value, s.net = pre ++ ⟨src, i, value⟩ :: post ∧ s'.net = pre ++ post ∧
      l' = { l with slots := Function.update l.slots src value } := by
  cases h with
  | @signal _ _ r hpc hr hne => exact .inr (.inl ⟨r, hpc, hr, hne, rfl, rfl⟩)
  | leave hpc => exact .inr (.inr (.inl ⟨hpc, rfl, rfl⟩))
  | @deliver pre post _ _ src value =>
    exact .inr (.inr (.inr ⟨pre, post, src, value, rfl, rfl, rfl⟩))
  | _ => exact .inl ⟨rfl, rfl, rfl, rfl⟩

/-- What is signalled after a step was so before, unless the step sends it. -/
theorem Signalled.of_step {r b j : ℕ} (h : Signalled ⟨s', c.threads.set i l'⟩ r b j)
    (hget : c.threads[i]? = some l) :
    Signalled c r b j ∨ r = i ∧ (b, j) ∈ l'.signalled ∧ (b, j) ∉ l.signalled := by
  obtain ⟨m, hm, hmem⟩ := h
  rcases ThreadSystem.getElem?_set_cases hm with ⟨rfl, rfl⟩ | ⟨-, hm⟩
  · by_cases hold : (b, j) ∈ l.signalled
    · exact .inl ⟨l, hget, hold⟩
    · exact .inr ⟨rfl, hmem, hold⟩
  · exact .inl ⟨m, hm, hmem⟩

/-- A rank does not signal a round twice to the same rank. -/
theorem not_signalled_of_signal {r : ℕ} (hshift : cfg.minShift ≤ cfg.maxShift)
    (hc : (semaphoreRounds cfg).Reachable c) (hget : c.threads[i]? = some l)
    (hpc : l.pc = .signal r) : ¬ Signalled c i l.round r := by
  rintro ⟨m, hm, hmem⟩
  obtain rfl := Option.some.inj (hget.symm.trans hm)
  have hplaced := ((SemaphoreRank.Placed.reachable hshift hc i l hget).signalled l.round r).mp hmem
  simp only [hpc, SemaphorePc.sent] at hplaced
  omega

/-- No signal is on its way twice. -/
theorem nodup_net_of_reachable (hshift : cfg.minShift ≤ cfg.maxShift)
    (hc : (semaphoreRounds cfg).Reachable c) : c.shared.net.Nodup := by
  refine hc.invariant (I := fun c => c.shared.net.Nodup) ?_ ?_
  · intro c hinit
    rw [hinit.1]
    exact List.nodup_nil
  · rintro c _ hc ih (@⟨l, l', s', i, hget, hstep⟩)
    rcases hstep.kinds with ⟨hnet, -⟩ | ⟨r, hpc, -, -, hnet, -⟩ | ⟨-, rfl, -⟩ |
      ⟨pre, post, src, value, hbefore, hafter, -⟩
    · rwa [hnet]
    · rw [hnet]
      refine List.nodup_append.mpr ⟨ih, List.nodup_singleton _, ?_⟩
      rintro x hx y hy rfl
      rw [List.mem_singleton.mp hy] at hx
      exact not_signalled_of_signal hshift hc hget hpc ((SemaphoreInv.reachable hc).net _ hx)
    · exact ih
    · rw [hbefore] at ih
      rw [hafter]
      exact ih.sublist (List.sublist_cons_self _ _ |>.append_left pre)

/-! ### No round of shift zero -/

/-- The signals on their way to a rank are of the round it is in, and have not arrived before; those
of the round that are not on their way have arrived. -/
structure SignalsCurrent (c : Config SemaphoreShared SemaphoreRank) : Prop where
  onTheirWay : ∀ (i : ℕ) (l : SemaphoreRank), c.threads[i]? = some l → ∀ r v,
    ⟨r, i, v⟩ ∈ c.shared.net → v = l.round ∧ l.slots r ≠ v
  read : ∀ (i : ℕ) (l : SemaphoreRank), c.threads[i]? = some l → ∀ k, l.pc = .read k →
    ∀ r < k, r ≠ i → l.slots r = l.round
  arrived : ∀ (i : ℕ) (l : SemaphoreRank), c.threads[i]? = some l → ∀ r,
    Signalled c r l.round i → ⟨r, i, l.round⟩ ∈ c.shared.net ∨ l.slots r = l.round

/-- A rank that signals a round signals it to a rank of the same round, which has not got it. -/
theorem signal_current (hmin : 0 < cfg.minShift) (hshift : cfg.minShift ≤ cfg.maxShift)
    (hc : (semaphoreRounds cfg).Reachable c) (hget : c.threads[i]? = some l) {r : ℕ}
    (hpc : l.pc = .signal r) (hne : r ≠ i) {m : SemaphoreRank} (hm : c.threads[r]? = some m) :
    l.round = m.round ∧ m.slots i ≠ l.round := by
  have hinv := SemaphoreInv.reachable hc
  have hnot := not_signalled_of_signal hshift hc hget hpc
  have hround := hinv.round i l hget
  have hlt : ∀ {j : ℕ} {k : SemaphoreRank}, c.threads[j]? = some k → j < cfg.size := by
    intro j k hk
    rw [← hinv.length]
    exact (List.getElem?_eq_some_iff.mp hk).1
  refine ⟨le_antisymm ?_ ?_, fun hslot => ?_⟩
  · -- `i` is past the fences of its round, so `r` has entered them
    have hfences := hinv.fences i l hget r (hlt hm)
    rw [hinv.arrived r m hm, SemaphoreRank.entered, SemaphoreRank.passed, hpc] at hfences
    have hentered := m.pc.entered_le
    have hround' := hinv.round r m hm
    simp only [SemaphorePc.passed] at hfences
    omega
  · -- `r` has not left the round, since `i` has not signalled it
    by_contra hlater
    have hleft := (SemaphoreRank.Placed.reachable hshift hc r m hm).left l.round hround
      (not_le.mp hlater)
    exact hnot ((Waited.reachable hmin hc r m hm).2 _ hleft i (hlt hget) hne.symm)
  · -- a slot that had the value already would be due to a signal sent before
    rcases hinv.slots r m hm i with hzero | hsignalled
    · omega
    · rw [hslot] at hsignalled
      exact hnot hsignalled

/-- When a rank has read all its slots, nothing is on its way to it. -/
theorem SignalsCurrent.not_mem_net (h : SignalsCurrent c) (hshift : cfg.minShift ≤ cfg.maxShift)
    (hc : (semaphoreRounds cfg).Reachable c) (hget : c.threads[i]? = some l)
    (hpc : l.pc = .read cfg.size) (r v : ℕ) : ⟨r, i, v⟩ ∉ c.shared.net := by
  intro hmem
  obtain ⟨rfl, hslot⟩ := h.onTheirWay i l hget r v hmem
  have hinv := SemaphoreInv.reachable hc
  obtain ⟨m, hm, hsignalled⟩ := hinv.net _ hmem
  have hr : r < cfg.size := by
    rw [← hinv.length]
    exact (List.getElem?_eq_some_iff.mp hm).1
  have hne := (((SemaphoreRank.Placed.reachable hshift hc r m hm).signalled l.round i).mp
    hsignalled).2.1
  exact hslot (h.read i l hget _ hpc r hr hne.symm)

/-- The signals on their way after a step. -/
theorem SignalsCurrent.onTheirWay_step (h : SignalsCurrent c) (hmin : 0 < cfg.minShift)
    (hshift : cfg.minShift ≤ cfg.maxShift) (hc : (semaphoreRounds cfg).Reachable c)
    (hget : c.threads[i]? = some l) (hstep : SemaphoreStep cfg i c.shared l s' l') (j : ℕ)
    (m : SemaphoreRank) (hm : (c.threads.set i l')[j]? = some m) (r v : ℕ)
    (hmem : ⟨r, j, v⟩ ∈ s'.net) : v = m.round ∧ m.slots r ≠ v := by
  rcases hstep.kinds with ⟨hnet, hslots, -, hround⟩ | ⟨q, hpc, -, hne, hnet, rfl⟩ |
    ⟨hpc, rfl, rfl⟩ | ⟨pre, post, src, value, hbefore, hafter, rfl⟩
  · -- a step without signals
    rw [hnet] at hmem
    rcases ThreadSystem.getElem?_set_cases hm with ⟨rfl, rfl⟩ | ⟨-, hm⟩
    · rw [hslots, hround]
      exact h.onTheirWay _ _ hget r v hmem
    · exact h.onTheirWay _ _ hm r v hmem
  · rw [hnet] at hmem
    rcases List.mem_append.mp hmem with hold | hnew
    · rcases ThreadSystem.getElem?_set_cases hm with ⟨rfl, rfl⟩ | ⟨-, hm⟩
      · exact h.onTheirWay _ _ hget r v hold
      · exact h.onTheirWay _ _ hm r v hold
    · -- the new signal
      obtain ⟨rfl, rfl, rfl⟩ := Signal.mk.inj (List.mem_singleton.mp hnew)
      rcases ThreadSystem.getElem?_set_cases hm with ⟨rfl, -⟩ | ⟨-, hm⟩
      · exact absurd rfl hne
      · exact signal_current hmin hshift hc hget hpc hne hm
  · -- a rank begins its next round: all that was sent to it has arrived
    rcases ThreadSystem.getElem?_set_cases hm with ⟨rfl, rfl⟩ | ⟨-, hm⟩
    · exact absurd hmem (h.not_mem_net hshift hc hget hpc r v)
    · exact h.onTheirWay _ _ hm r v hmem
  · -- a signal arrives
    rw [hafter] at hmem
    have hsubset : ∀ x ∈ pre ++ post, x ∈ c.shared.net := by
      intro x hx
      rw [hbefore]
      exact ((List.sublist_cons_self _ _).append_left pre).subset hx
    rcases ThreadSystem.getElem?_set_cases hm with ⟨rfl, rfl⟩ | ⟨-, hm⟩
    · obtain ⟨hv, hslot⟩ := h.onTheirWay _ _ hget r v (hsubset _ hmem)
      refine ⟨hv, ?_⟩
      by_cases hr : r = src
      · -- the signal that arrives was on its way once only
        subst hr
        have harrives := (h.onTheirWay j l hget r value (by rw [hbefore]; simp)).1
        rw [hv, ← harrives] at hmem
        have hnodup := nodup_net_of_reachable hshift hc
        rw [hbefore] at hnodup
        exact absurd hmem (List.nodup_middle.mp hnodup).notMem
      · simp only [Function.update_of_ne hr]
        exact hslot
    · exact h.onTheirWay _ _ hm r v (hsubset _ hmem)

/-- The slots read after a step. -/
theorem SignalsCurrent.read_step (h : SignalsCurrent c) (hget : c.threads[i]? = some l)
    (hstep : SemaphoreStep cfg i c.shared l s' l') (j : ℕ) (m : SemaphoreRank)
    (hm : (c.threads.set i l')[j]? = some m) (k : ℕ) (hk : m.pc = .read k) (r : ℕ) (hr : r < k)
    (hne : r ≠ j) : m.slots r = m.round := by
  rcases ThreadSystem.getElem?_set_cases hm with ⟨rfl, rfl⟩ | ⟨-, hm⟩
  · rcases hstep.kinds with ⟨-, hslots, -, -⟩ | ⟨q, -, -, -, -, rfl⟩ | ⟨-, -, rfl⟩ |
      ⟨pre, post, src, value, hbefore, -, rfl⟩
    · rw [hslots]
      -- a rank that goes on has read one slot more than before
      rcases hstep.waits.1 k hk with rfl | ⟨hround, hstay | ⟨q, rfl, hat, hread⟩⟩
      · exact absurd hr r.not_lt_zero
      · rw [hround]
        exact h.read j l hget k hstay r hr hne
      · rw [hround]
        rcases Nat.lt_succ_iff_lt_or_eq.mp hr with hr | rfl
        · exact h.read j l hget q hat r hr hne
        · exact hread.resolve_left hne
    · cases hk
    · cases hk
    · -- what arrives is of the round
      by_cases heq : r = src
      · subst heq
        simp only [Function.update_self]
        exact (h.onTheirWay j l hget r value (by rw [hbefore]; simp)).1
      · simp only [Function.update_of_ne heq]
        exact h.read j l hget k hk r hr hne
  · exact h.read j m hm k hk r hr hne

/-- The signals that have arrived after a step. -/
theorem SignalsCurrent.arrived_step (h : SignalsCurrent c)
    (hc : (semaphoreRounds cfg).Reachable c) (hget : c.threads[i]? = some l)
    (hstep : SemaphoreStep cfg i c.shared l s' l') (j : ℕ) (m : SemaphoreRank)
    (hm : (c.threads.set i l')[j]? = some m) (r : ℕ)
    (hsignalled : Signalled ⟨s', c.threads.set i l'⟩ r m.round j) :
    ⟨r, j, m.round⟩ ∈ s'.net ∨ m.slots r = m.round := by
  have hbefore := hsignalled.of_step hget
  rcases hstep.kinds with ⟨hnet, hslots, hsame, hround⟩ | ⟨q, -, -, -, hnet, rfl⟩ |
    ⟨hpc, rfl, rfl⟩ | ⟨pre, post, src, value, hnet, hafter, rfl⟩
  · have hold : Signalled c r m.round j := by
      -- neither the signals nor the slots change
      refine hbefore.resolve_right ?_
      rintro ⟨-, hnew, hnot⟩
      rw [hsame] at hnew
      exact hnot hnew
    rw [hnet]
    rcases ThreadSystem.getElem?_set_cases hm with ⟨rfl, rfl⟩ | ⟨-, hm⟩
    · rw [hround] at hold
      rw [hslots, hround]
      exact h.arrived _ _ hget r hold
    · exact h.arrived _ _ hm r hold
  · -- a signal is sent: the older ones are where they were
    rw [hnet]
    rcases hbefore with hold | ⟨rfl, hnew, hnot⟩
    · have hkept : ⟨r, j, m.round⟩ ∈ c.shared.net ∨ m.slots r = m.round := by
        rcases ThreadSystem.getElem?_set_cases hm with ⟨rfl, rfl⟩ | ⟨-, hm⟩
        · exact h.arrived _ _ hget r hold
        · exact h.arrived _ _ hm r hold
      exact hkept.imp_left (List.mem_append_left _)
    · -- the new signal is on its way
      left
      obtain ⟨hround, rfl⟩ := Prod.mk.inj
        (List.mem_singleton.mp ((List.mem_append.mp hnew).resolve_left hnot))
      rw [hround]
      exact List.mem_append_right _ (List.mem_singleton_self _)
  · have hold : Signalled c r m.round j := hbefore.resolve_right fun hnew => hnew.2.2 hnew.2.1
    rcases ThreadSystem.getElem?_set_cases hm with ⟨rfl, rfl⟩ | ⟨-, hm⟩
    · -- nobody signals a round that a rank has not begun
      exfalso
      have hinv := SemaphoreInv.reachable hc
      obtain ⟨n, hn, hmem⟩ := hold
      have hj : j < cfg.size := by
        rw [← hinv.length]
        exact (List.getElem?_eq_some_iff.mp hget).1
      have hpast := (hinv.signalled r n hn _ hmem).2
      have hfences := hinv.fences r n hn j hj
      rw [hinv.arrived j l hget, SemaphoreRank.entered, hpc, SemaphorePc.entered] at hfences
      have hround := hinv.round j l hget
      simp only at hpast
      omega
    · exact h.arrived _ _ hm r hold
  · -- a signal arrives: it is the one in question, or that one stays on its way
    have hold : Signalled c r m.round j := hbefore.resolve_right fun hnew => hnew.2.2 hnew.2.1
    rw [hafter]
    rcases ThreadSystem.getElem?_set_cases hm with ⟨rfl, rfl⟩ | ⟨hne, hm⟩
    · by_cases hr : r = src
      · subst hr
        right
        simp only [Function.update_self]
        exact (h.onTheirWay j l hget r value (by rw [hnet]; simp)).1
      · simp only [Function.update_of_ne hr]
        refine (h.arrived j l hget r hold).imp_left fun hmem => ?_
        rw [hnet] at hmem
        simpa [hr] using hmem
    · refine (h.arrived j m hm r hold).imp_left fun hmem => ?_
      rw [hnet] at hmem
      simpa [hne] using hmem

theorem SignalsCurrent.reachable (hmin : 0 < cfg.minShift) (hshift : cfg.minShift ≤ cfg.maxShift)
    (hc : (semaphoreRounds cfg).Reachable c) : SignalsCurrent c := by
  refine hc.invariant (I := SignalsCurrent) ?_ ?_
  · rintro ⟨s, ranks⟩ ⟨rfl, rfl⟩
    have hstart : ∀ (i : ℕ) (l : SemaphoreRank),
        (List.replicate cfg.size (SemaphoreRank.start cfg))[i]? = some l → l = .start cfg :=
      fun i l hget => List.eq_of_mem_replicate (List.mem_of_getElem? hget)
    refine ⟨fun _ _ _ _ _ hmem => absurd hmem List.not_mem_nil, ?_, ?_⟩
    · intro i l hget k hk
      rw [hstart i l hget] at hk
      cases hk
    · rintro i l hget r ⟨m, hm, hmem⟩
      rw [hstart r m hm] at hmem
      exact absurd hmem List.not_mem_nil
  · rintro c _ hc h (@⟨l, l', s', i, hget, hstep⟩)
    exact ⟨h.onTheirWay_step hmin hshift hc hget hstep, h.read_step hget hstep,
      h.arrived_step hc hget hstep⟩

/-! ### Progress -/

/-- The steps that are left to a rank in a round, where a signal counts for its arrival too. -/
def SemaphorePc.stepsLeft (size : ℕ) : SemaphorePc → ℕ
  | .fence .beforeWarmup => 3 * size + 13
  | .inFence .beforeWarmup => 3 * size + 12
  | .warmup => 3 * size + 11
  | .fence .beforeWrites => 3 * size + 10
  | .inFence .beforeWrites => 3 * size + 9
  | .writes => 3 * size + 8
  | .fence .afterWrites => 3 * size + 7
  | .inFence .afterWrites => 3 * size + 6
  | .check => 3 * size + 5
  | .signal r => size + 4 + 2 * (size - r)
  | .waitWrites => size + 3
  | .read r => 2 + (size - r)
  | .loop => 1
  | .done | .failed => 0

/-- The rounds that a rank has not begun. -/
def SemaphoreRank.roundsLeft (cfg : SemaphoreSetup) (l : SemaphoreRank) : ℕ :=
  if l.pc = .loop then cfg.maxShift + 1 - l.round else cfg.maxShift - l.round

/-- The steps that are left to a rank. -/
def SemaphoreRank.work (cfg : SemaphoreSetup) (l : SemaphoreRank) : ℕ :=
  (3 * cfg.size + 13) * l.roundsLeft cfg + l.pc.stepsLeft cfg.size

/-- A step within a round leaves fewer steps of the round. -/
theorem SemaphoreRank.work_lt {pc : SemaphorePc} (hpc : l.pc ≠ .loop) (hpc' : pc ≠ .loop)
    (hlt : pc.stepsLeft cfg.size < l.pc.stepsLeft cfg.size) :
    SemaphoreRank.work cfg { l with pc } < l.work cfg := by
  have hrounds : SemaphoreRank.roundsLeft cfg { l with pc } = l.roundsLeft cfg := by
    rw [roundsLeft, roundsLeft, if_neg hpc, if_neg hpc']
  rw [work, work, hrounds]
  exact Nat.add_lt_add_left hlt _

/-- A rank that waits for nobody can take a step, which leaves it less to do and delivers
nothing. -/
theorem SemaphoreRank.exists_step (hplaced : l.Placed cfg i) (hi : i < cfg.size)
    (hdone : l.pc ≠ .done) (hfailed : l.pc ≠ .failed)
    (hfence : ∀ f, l.pc = .inFence f → ∀ r < cfg.size, s.arrived i ≤ s.arrived r)
    (hread : ∀ r, l.pc = .read r → r < cfg.size → r ≠ i → l.slots r = l.round) :
    ∃ s' l', SemaphoreStep cfg i s l s' l' ∧ l'.pc ≠ .failed ∧ s.net <+: s'.net ∧
      l'.work cfg + s'.net.length < l.work cfg + s.net.length := by
  have hbounds := hplaced.bounds
  -- a step within the round that sends nothing
  have hquiet : ∀ {t : SemaphoreShared} {pc : SemaphorePc},
      SemaphoreStep cfg i s l t { l with pc } → t.net = s.net → l.pc ≠ .loop → pc ≠ .loop →
      pc ≠ .failed → pc.stepsLeft cfg.size < l.pc.stepsLeft cfg.size →
      ∃ s' l', SemaphoreStep cfg i s l s' l' ∧ l'.pc ≠ .failed ∧ s.net <+: s'.net ∧
        l'.work cfg + s'.net.length < l.work cfg + s.net.length := by
    intro t pc hstep hnet hpc hpc' hnot hlt
    refine ⟨t, _, hstep, hnot, hnet ▸ List.prefix_rfl, ?_⟩
    rw [hnet]
    exact Nat.add_lt_add_right (SemaphoreRank.work_lt hpc hpc' hlt) _
  cases hpc : l.pc with
  | loop =>
    rw [hpc] at hbounds
    by_cases hround : l.round ≤ cfg.maxShift
    · refine ⟨s, _, .enterRound hpc hround, by simp, List.prefix_rfl, ?_⟩
      -- a round that begins is one round less
      have hrounds : cfg.maxShift + 1 - l.round = cfg.maxShift - l.round + 1 := by omega
      simp only [work, roundsLeft, hpc, SemaphorePc.stepsLeft, if_true, hrounds, Nat.mul_succ,
        reduceCtorEq, if_false]
      omega
    · refine ⟨s, _, .finish hpc hround, by simp, List.prefix_rfl, ?_⟩
      have hrounds : cfg.maxShift + 1 - l.round = 0 ∧ cfg.maxShift - l.round = 0 := by omega
      simp [work, roundsLeft, hpc, SemaphorePc.stepsLeft, hrounds]
  | fence f =>
    refine hquiet (.enterFence hpc) rfl (by simp [hpc]) (by simp) (by simp) ?_
    rw [hpc]
    cases f <;> simp [SemaphorePc.stepsLeft]
  | inFence f =>
    refine hquiet (.leaveFence hpc (hfence f hpc)) rfl (by simp [hpc]) ?_ ?_ ?_
    · cases f <;> simp [RoundFence.after]
    · cases f <;> simp [RoundFence.after]
    · rw [hpc]
      cases f <;> simp [SemaphorePc.stepsLeft, RoundFence.after]
  | warmup =>
    refine hquiet (.warmupDone hpc) rfl (by simp [hpc]) (by simp) (by simp) ?_
    simp [hpc, SemaphorePc.stepsLeft]
  | writes =>
    refine hquiet (.writesDone hpc) rfl (by simp [hpc]) (by simp) (by simp) ?_
    simp [hpc, SemaphorePc.stepsLeft]
  | check =>
    refine hquiet (.checked hpc) rfl (by simp [hpc]) (by simp) (by simp) ?_
    simp only [hpc, SemaphorePc.stepsLeft]
    omega
  | signal r =>
    rw [hpc] at hbounds
    rcases Nat.eq_or_lt_of_le hbounds.1 with rfl | hr
    · refine hquiet (.signalEnd hpc) rfl (by simp [hpc]) (by simp) (by simp) ?_
      simp [hpc, SemaphorePc.stepsLeft]
    by_cases hri : r = i
    · subst hri
      refine hquiet (.skipSignal hpc hi) rfl (by simp [hpc]) (by simp) (by simp) ?_
      simp only [hpc, SemaphorePc.stepsLeft]
      omega
    · -- the signal takes one step to send, and one to arrive
      refine ⟨_, _, .signal hpc hr hri, by simp, List.prefix_append _ _, ?_⟩
      simp only [work, roundsLeft, hpc, SemaphorePc.stepsLeft, reduceCtorEq, if_false,
        List.length_append, List.length_singleton]
      omega
  | waitWrites =>
    refine hquiet (.waited hpc) rfl (by simp [hpc]) (by simp) (by simp) ?_
    simp only [hpc, SemaphorePc.stepsLeft]
    omega
  | read r =>
    rw [hpc] at hbounds
    rcases Nat.eq_or_lt_of_le hbounds.1 with rfl | hr
    · refine ⟨s, _, .leave hpc, by simp, List.prefix_rfl, ?_⟩
      simp [work, roundsLeft, hpc, SemaphorePc.stepsLeft]
    by_cases hri : r = i
    · subst hri
      refine hquiet (.skipRead hpc hi) rfl (by simp [hpc]) (by simp) (by simp) ?_
      simp only [hpc, SemaphorePc.stepsLeft]
      omega
    · refine hquiet (.readSame hpc hr hri (hread r hpc hr hri)) rfl (by simp [hpc]) (by simp)
        (by simp) ?_
      simp only [hpc, SemaphorePc.stepsLeft]
      omega
  | done => exact absurd hpc hdone
  | failed => exact absurd hpc hfailed

end LibFatbat
