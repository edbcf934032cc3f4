import LibFatbat.Collective.SemaphoreProgress

/-!
# A signal that is overwritten

A semaphore round of shift zero is left without its signals. They are writes that nothing waits for
at their target, and two of them to the same slot may arrive in either order: the signal of round
zero can arrive after that of round one and overwrite it, and the rank waits for a value that nobody
writes again (`WaitsInVain`, `not_canFinish_of_zero`).
-/

open Concurrent

namespace LibFatbat

variable {cfg : SemaphoreSetup} {c c' : Config SemaphoreShared SemaphoreRank}
  {s s' : SemaphoreShared} {l l' : SemaphoreRank} {i : ℕ}

/-! ### A round of shift zero and another one -/

/-- Before the wait for the writes of round one, or in it. -/
def SemaphoreRank.Early (l : SemaphoreRank) : Prop :=
  l.round = 0 ∨ l.round = 1 ∧ ∀ r, l.pc ≠ .read r

/-- In the wait for the writes of round one. -/
def SemaphoreRank.AtWait (l : SemaphoreRank) : Prop := l.round = 1 ∧ l.pc = .waitWrites

/-- No rank is past the wait for the writes of round one, and no signal has arrived. -/
structure Undelivered (c : Config SemaphoreShared SemaphoreRank) : Prop where
  early : ∀ l ∈ c.threads, l.Early
  running : ∀ l ∈ c.threads, l.pc ≠ .failed
  slots : ∀ l ∈ c.threads, ∀ r, l.slots r = 0
  net : ∀ (i : ℕ) (l : SemaphoreRank), c.threads[i]? = some l → ∀ b r, (b, r) ∈ l.signalled →
    ⟨i, r, b⟩ ∈ c.shared.net

theorem SemaphoreStep.early (h : SemaphoreStep cfg i s l s' l') (hl : l.Early)
    (hwait : ¬ l.AtWait) : l'.Early := by
  have hnot : ∀ r, l.pc = .read r → l.round = 0 := fun r hpc =>
    hl.resolve_right fun hone => hone.2 r hpc
  cases h with
  | leave hpc => exact .inr ⟨congrArg (· + 1) (hnot _ hpc), fun r => by simp⟩
  | waited hpc => exact .inl (hl.resolve_right fun hone => hwait ⟨hone.1, hpc⟩)
  | skipRead hpc | readSame hpc | readOther hpc => exact .inl (hnot _ hpc)
  | @leaveFence _ _ f =>
    exact hl.imp_right fun hone => ⟨hone.1, fun r => by cases f <;> simp [RoundFence.after]⟩
  | deliver => exact hl
  | _ => exact hl.imp_right fun hone => ⟨hone.1, fun r => by simp⟩

/-- A step that delivers nothing leaves the slots as they are, and what it signals is on its way. -/
theorem SemaphoreStep.of_prefix (h : SemaphoreStep cfg i s l s' l') (hnet : s.net <+: s'.net) :
    l'.slots = l.slots ∧ ∀ b r, (b, r) ∈ l'.signalled → (b, r) ∈ l.signalled ∨
      ⟨i, r, b⟩ ∈ s'.net := by
  rcases h.kinds with ⟨-, hslots, hsame, -⟩ | ⟨q, -, -, -, hafter, rfl⟩ | ⟨-, -, rfl⟩ |
    ⟨pre, post, src, value, hbefore, hafter, -⟩
  · rw [hsame]
    exact ⟨hslots, fun b r hmem => .inl hmem⟩
  · refine ⟨rfl, fun b r hmem => (List.mem_append.mp hmem).imp_right fun hnew => ?_⟩
    obtain ⟨rfl, rfl⟩ := Prod.mk.inj (List.mem_singleton.mp hnew)
    rw [hafter]
    exact List.mem_append_right _ (List.mem_singleton_self _)
  · exact ⟨rfl, fun b r hmem => .inl hmem⟩
  · have hlength := hnet.length_le
    rw [hbefore, hafter] at hlength
    simp at hlength

/-- A step that delivers nothing, of a rank that is not at the wait. -/
theorem Undelivered.step (h : Undelivered c) (hget : c.threads[i]? = some l) (hwait : ¬ l.AtWait)
    (hstep : SemaphoreStep cfg i c.shared l s' l') (hnot : l'.pc ≠ .failed)
    (hnet : c.shared.net <+: s'.net) : Undelivered ⟨s', c.threads.set i l'⟩ := by
  have hl := List.mem_of_getElem? hget
  obtain ⟨hslots, hsignalled⟩ := hstep.of_prefix hnet
  refine ⟨fun m hm => ?_, fun m hm => ?_, fun m hm => ?_, fun j m hm b r hmem => ?_⟩
  · rcases List.mem_or_eq_of_mem_set hm with hm | rfl
    · exact h.early m hm
    · exact hstep.early (h.early l hl) hwait
  · rcases List.mem_or_eq_of_mem_set hm with hm | rfl
    · exact h.running m hm
    · exact hnot
  · rcases List.mem_or_eq_of_mem_set hm with hm | rfl
    · exact h.slots m hm
    · rw [hslots]
      exact h.slots l hl
  · rcases ThreadSystem.getElem?_set_cases hm with ⟨rfl, rfl⟩ | ⟨-, hm⟩
    · rcases hsignalled b r hmem with hold | hnew
      · exact hnet.subset (h.net j l hget b r hold)
      · exact hnew
    · exact hnet.subset (h.net j m hm b r hmem)

/-- Rank 0 waits for rank 1 in round one, and rank 1 has sent it the signals of both rounds, which
have arrived with the one of round zero last. -/
structure WaitsInVain (c : Config SemaphoreShared SemaphoreRank) (l m : SemaphoreRank) : Prop where
  reader : c.threads[0]? = some l
  sender : c.threads[1]? = some m
  round : l.round = 1
  waiting : l.pc = .waitWrites ∨ l.pc = .read 0 ∨ l.pc = .read 1
  slot : l.slots 1 = 0
  sent : (0, 0) ∈ m.signalled ∧ (1, 0) ∈ m.signalled
  net : ∀ v, ⟨1, 0, v⟩ ∉ c.shared.net

/-- Rank 0 goes on waiting. -/
theorem SemaphoreStep.waitsInVain (h : SemaphoreStep cfg 0 s l s' l') (hsize : 2 ≤ cfg.size)
    (hround : l.round = 1) (hwaiting : l.pc = .waitWrites ∨ l.pc = .read 0 ∨ l.pc = .read 1)
    (hslot : l.slots 1 = 0) (hnet : ∀ v, ⟨1, 0, v⟩ ∉ s.net) :
    l'.round = 1 ∧ (l'.pc = .waitWrites ∨ l'.pc = .read 0 ∨ l'.pc = .read 1) ∧ l'.slots 1 = 0 := by
  cases h with
  | waited | readOther => exact ⟨hround, .inr (.inl rfl), hslot⟩
  | skipRead => exact ⟨hround, .inr (.inr rfl), hslot⟩
  | @readSame _ _ r hpc hr hne hsame =>
    -- the slot of rank 1 does not have the value of the round
    rw [hpc] at hwaiting
    obtain rfl : r = 1 := by simpa [hne] using hwaiting
    omega
  | leave hpc =>
    rw [hpc] at hwaiting
    simp only [SemaphorePc.read.injEq, reduceCtorEq, false_or] at hwaiting
    omega
  | @deliver pre post _ _ src value =>
    refine ⟨hround, hwaiting, ?_⟩
    rcases eq_or_ne src 1 with rfl | hne
    · exact absurd (by simp) (hnet value)
    · simpa [Function.update_of_ne hne.symm] using hslot
  | _ hpc =>
    rw [hpc] at hwaiting
    simp at hwaiting

/-- A step of the others does not help it. -/
theorem WaitsInVain.step {m : SemaphoreRank} (h : WaitsInVain c l m) (hzero : cfg.minShift = 0)
    (hsize : 2 ≤ cfg.size) (hshift : cfg.minShift ≤ cfg.maxShift)
    (hc : (semaphoreRounds cfg).Reachable c) (hstep : (semaphoreRounds cfg).Step c c') :
    ∃ l' m', WaitsInVain c' l' m' := by
  obtain @⟨k, k', s', i, hget, hstep⟩ := hstep
  have hinv := SemaphoreInv.reachable hc
  have hi := (List.getElem?_eq_some_iff.mp hget).1
  -- rank 1 would signal a round that rank 0 has not begun
  have hnet : ∀ v, ⟨1, 0, v⟩ ∉ s'.net := by
    intro v hmem
    rcases hstep.kinds with ⟨hsame, -⟩ | ⟨q, hpc, -, -, hafter, -⟩ | ⟨-, rfl, -⟩ |
      ⟨pre, post, src, value, hbefore, hafter, -⟩
    · rw [hsame] at hmem
      exact h.net v hmem
    · rw [hafter] at hmem
      have hnew := (List.mem_append.mp hmem).resolve_left (h.net v)
      obtain ⟨rfl, rfl, rfl⟩ := Signal.mk.inj (List.mem_singleton.mp hnew)
      have hnot := not_signalled_of_signal hshift hc hget hpc
      have hround : k.round ≠ 0 ∧ k.round ≠ 1 := by
        obtain rfl := Option.some.inj (h.sender.symm.trans hget)
        constructor
        · intro heq
          rw [heq] at hnot
          exact hnot ⟨m, hget, h.sent.1⟩
        · intro heq
          rw [heq] at hnot
          exact hnot ⟨m, hget, h.sent.2⟩
      have hfences := hinv.fences 1 k hget 0 (by omega)
      have hle := l.pc.entered_le
      rw [hinv.arrived 0 l h.reader, SemaphoreRank.entered, SemaphoreRank.passed, hpc, h.round,
        hzero, SemaphorePc.passed] at hfences
      omega
    · exact h.net v hmem
    · rw [hafter] at hmem
      refine h.net v ?_
      rw [hbefore]
      exact ((List.sublist_cons_self _ _).append_left pre).subset hmem
  rcases eq_or_ne i 0 with rfl | hne
  · obtain rfl := Option.some.inj (h.reader.symm.trans hget)
    obtain ⟨hround, hwaiting, hslot⟩ := hstep.waitsInVain hsize h.round h.waiting h.slot h.net
    refine ⟨k', m, List.getElem?_set_self hi, ?_, hround, hwaiting, hslot, h.sent, hnet⟩
    exact (List.getElem?_set_ne Nat.zero_ne_one).trans h.sender
  have hreader : (c.threads.set i k')[0]? = some l := (List.getElem?_set_ne hne).trans h.reader
  rcases eq_or_ne i 1 with rfl | hne'
  · obtain rfl := Option.some.inj (h.sender.symm.trans hget)
    refine ⟨l, k', hreader, List.getElem?_set_self hi, h.round, h.waiting, h.slot, ?_, hnet⟩
    rcases hstep.signals.1 with hsame | ⟨-, r, hmore⟩
    · rw [hsame]
      exact h.sent
    · rw [hmore]
      exact ⟨List.mem_append_left _ h.sent.1, List.mem_append_left _ h.sent.2⟩
  · refine ⟨l, m, hreader, ?_, h.round, h.waiting, h.slot, h.sent, hnet⟩
    exact (List.getElem?_set_ne hne').trans h.sender

end LibFatbat
