import LibFatbat.Bootstrap.Protocol
import LibFatbat.Concurrent.Progress

/-!
# The end of the exchange

When `boot_PMI` can come to an end. A call to PMIx that fails ends a process with an exception, at
any point; what the others can still do depends on whether it had reached the fence.

Main result: `boot_canFinish_iff`. From any state of any run, all processes that are still running
can finish if and only if every process that was terminated had reached the fence, or none is
running.
-/

open Concurrent

namespace LibFatbat

variable {n : ℕ} {job : Job n} {s s' : PmiStore} {p p' : BootProcess n} {t : ℕ}
  {c c' : Config PmiStore (BootProcess n)}

/-! ### Where the processes are -/

/-- What each point of `boot_PMI` says about the fence, the loop counter and the index that an
address is to be inserted at. -/
def BootPc.Placed (job : Job n) (t : ℕ) (s : PmiStore) : BootPc n → Prop
  | .inFence => s.arrived t = true
  | .get i => i ≤ job.size
  | .insert i newLocality => newLocality.fiAddress = i ∧ i < job.size
  | .done => ∀ r < job.size, s.arrived r = true
  | .put | .commit _ | .fence | .terminated => True

/-- The steps that are left to a process. -/
def BootProcess.work (job : Job n) (p : BootProcess n) : ℕ :=
  match p.pc with
  | .put => 2 * job.size + 5
  | .commit _ => 2 * job.size + 4
  | .fence => 2 * job.size + 3
  | .inFence => 2 * job.size + 2
  | .get i => 2 * (job.size - i) + 1
  | .insert i _ => 2 * (job.size - i)
  | .done | .terminated => 0

/-- Who has reached the fence stays there. -/
theorem BootStep.arrived (h : BootStep job t s p s' p') {r : ℕ} (hr : s.arrived r = true) :
    s'.arrived r = true := by
  cases h with
  | put =>
    unfold PmiStore.put
    split
    · exact hr
    · exact hr
  | enterFence =>
    by_cases heq : r = p.rank
    · simp [heq]
    · simpa [heq] using hr
  | commit | leaveFence | getPeer | getSelf | insert | finish | fail => exact hr

theorem BootPc.Placed.mono {pc : BootPc n} (h : pc.Placed job t s)
    (harrived : ∀ r, s.arrived r = true → s'.arrived r = true) : pc.Placed job t s' := by
  cases pc with
  | inFence => exact harrived t h
  | done => exact fun r hr => harrived r (h r hr)
  | put | commit | fence | get | insert | terminated => exact h

/-- An insertion that returns is followed by the next rank, which is not past the last. -/
theorem BootProcess.placed_afterInsert {i : ℕ} (hi : i < job.size)
    (result : Option (Locality n × List (FabricData n))) :
    (p.afterInsert i result).pc.Placed job t s := by
  cases result with
  | none => trivial
  | some => exact hi

/-- A process stays in its place. -/
theorem BootStep.placed (h : BootStep job t s p s' p') (hinv : p.Inv job t s)
    (hhere : p.here.fiAddress = t) (hplaced : p.pc.Placed job t s) :
    p'.here.fiAddress = t ∧ p'.pc.Placed job t s' := by
  have hrank := hinv.rank
  have hpc' := hinv.pc
  cases h with
  | put =>
    refine ⟨hhere, ?_⟩
    cases job.variant with
    | pmi2 => trivial
    | pmix => trivial
  | commit => exact ⟨hhere, trivial⟩
  | enterFence => exact ⟨hhere, by simp [BootPc.Placed, hrank]⟩
  | leaveFence => exact ⟨hhere, Nat.zero_le _⟩
  | @getPeer i encBuf decBuf junk hpc hi =>
    -- the peer's address is what the peer has put before the fence
    rw [hpc] at hpc'
    rw [hinv.received (hpc'.1 i hi)]
    exact ⟨hhere, rfl, hi⟩
  | getSelf hpc hi => exact ⟨hhere, hhere.trans hrank.symm, hi⟩
  | @insert i newLocality answer hpc =>
    rw [hpc] at hplaced
    have hrest : ∀ result, (p.afterInsert i result).here.fiAddress = t := by
      -- whatever the insertion answers, the own address stays
      intro result
      cases result with
      | none => exact hhere
      | some => exact hhere
    exact ⟨hrest _, BootProcess.placed_afterInsert hplaced.2 _⟩
  | finish hpc =>
    rw [hpc] at hpc'
    exact ⟨hhere, hpc'.1⟩
  | fail => exact ⟨hhere, trivial⟩

theorem placed_of_reachable (hc : (bootSystem job).Reachable c) (t : ℕ) (p : BootProcess n)
    (hget : c.threads[t]? = some p) : p.here.fiAddress = t ∧ p.pc.Placed job t c.shared := by
  refine hc.forall_threads
    (P := fun t s p => p.here.fiAddress = t ∧ p.pc.Placed job t s) ?_ ?_ ?_ t p hget
  · intro c hinit t p hget
    rw [hinit.2, List.getElem?_map] at hget
    obtain ⟨r, hr, rfl⟩ := Option.map_eq_some_iff.mp hget
    obtain ⟨-, rfl⟩ := List.getElem?_eq_some_iff.mp hr
    rw [List.getElem_range]
    exact ⟨rfl, trivial⟩
  · intro c t p s' p' hc hget h hstep
    exact hstep.placed (.reachable hc t p hget) h.1 h.2
  · intro c t r p q s' p' _ _ _ _ _ h hstep
    exact ⟨h.1, h.2.mono fun r hr => hstep.arrived hr⟩

theorem length_of_reachable (hc : (bootSystem job).Reachable c) : c.threads.length = job.size := by
  refine hc.invariant (I := fun c => c.threads.length = job.size) ?_ ?_
  · intro c hinit
    rw [hinit.2, List.length_map, List.length_range]
  · rintro c _ - ih ⟨i, -, -⟩
    rwa [List.length_set]

/-! ### Processes that were terminated -/

/-- A terminated process takes no step of its own, and so never arrives. -/
theorem BootStep.of_terminated (h : BootStep job t s p s' p') (hpc : p.pc = .terminated) :
    s' = s ∧ p'.pc = .terminated := by
  cases h with
  | fail => exact ⟨rfl, rfl⟩
  | put _ hpc' | commit hpc' | enterFence hpc' | leaveFence hpc' | getPeer _ _ _ hpc'
  | getSelf hpc' | insert _ hpc' | finish hpc' =>
    rw [hpc] at hpc'
    cases hpc'

/-- The steps of another process do not make rank `t` arrive. -/
theorem BootStep.arrived_ne {r : ℕ} (h : BootStep job r s p s' p') (hrank : p.rank ≠ t) :
    s'.arrived t = s.arrived t := by
  cases h with
  | put =>
    unfold PmiStore.put
    split
    · rfl
    · rfl
  | enterFence => exact Function.update_of_ne hrank.symm _ _
  | commit | leaveFence | getPeer | getSelf | insert | finish | fail => rfl

/-- A process that was terminated before the fence never reaches it. -/
theorem stays_terminated (hc : (bootSystem job).Reachable c) (hsteps : (bootSystem job).Steps c c')
    (hget : c.threads[t]? = some p) (hpc : p.pc = .terminated) :
    (∃ p', c'.threads[t]? = some p' ∧ p'.pc = .terminated) ∧
      c'.shared.arrived t = c.shared.arrived t := by
  induction hsteps with
  | refl => exact ⟨⟨p, hget, hpc⟩, rfl⟩
  | @tail d e hd hstep ih =>
    obtain ⟨⟨p', hget', hpc'⟩, harrived⟩ := ih
    obtain @⟨l, l', s', i, hi, hstep⟩ := hstep
    by_cases heq : i = t
    · subst heq
      obtain rfl : p' = l := Option.some.inj (hget'.symm.trans hi)
      obtain ⟨rfl, hend⟩ := hstep.of_terminated hpc'
      have hlt : i < d.threads.length := (List.getElem?_eq_some_iff.mp hi).1
      exact ⟨⟨l', List.getElem?_set_self hlt, hend⟩, harrived⟩
    · have hrank : l.rank = i := (BootProcess.Inv.reachable (hc.steps hd) i l hi).rank
      refine ⟨⟨p', (List.getElem?_set_ne heq).trans hget', hpc'⟩, ?_⟩
      exact (hstep.arrived_ne (by rwa [hrank])).trans harrived

/-! ### Progress -/

/-- A running process that the fence does not hold can take a step, which leaves it less to do. -/
theorem BootProcess.exists_step (hinv : p.Inv job t s) (hplaced : p.pc.Placed job t s)
    (hrunning : p.pc ≠ .done) (hnot : p.pc ≠ .terminated)
    (hfence : p.pc = .inFence → ∀ r < job.size, s.arrived r = true) :
    ∃ s' p', BootStep job t s p s' p' ∧ p'.pc ≠ .terminated ∧ p'.work job < p.work job := by
  have hrank := hinv.rank
  have hpc' := hinv.pc
  cases hpc : p.pc with
  | put =>
    refine ⟨_, _, .put (Vector.replicate 3 0) hpc, ?_, ?_⟩
    · cases job.variant with
      | pmi2 => simp [afterPut]
      | pmix => simp [afterPut]
    · cases hvariant : job.variant with
      | pmi2 => simp [BootProcess.work, hpc, afterPut]
      | pmix => simp [BootProcess.work, hpc, afterPut]
  | commit value => exact ⟨_, _, .commit hpc, by simp, by simp [BootProcess.work, hpc]⟩
  | fence => exact ⟨_, _, .enterFence hpc, by simp, by simp [BootProcess.work, hpc]⟩
  | inFence => exact ⟨_, _, .leaveFence hpc (hfence hpc), by simp, by simp [BootProcess.work, hpc]⟩
  | get i =>
    rw [hpc] at hplaced hpc'
    rcases Nat.eq_or_lt_of_le hplaced with rfl | hi
    · exact ⟨_, _, .finish hpc, by simp, by simp [BootProcess.work, hpc]⟩
    by_cases hself : i = p.rank
    · subst hself
      exact ⟨_, _, .getSelf hpc hi, by simp, by simp [BootProcess.work, hpc]⟩
    · -- past the fence the value is there
      have hstep : BootStep job t s p s _ := .getPeer (i := i) (Vector.replicate 3 0)
        (Vector.replicate 4 0) [] hpc hi hself
      rw [hinv.received (hpc'.1 i hi)] at hstep
      exact ⟨_, _, hstep, by simp [afterGet], by simp [BootProcess.work, hpc, afterGet]⟩
  | insert i newLocality =>
    rw [hpc] at hplaced hpc'
    obtain ⟨haddress, hi⟩ := hplaced
    have hlength : p.av.length = i := by simp [hpc'.2.1, Job.addresses]
    -- the table has as many addresses as the index says
    have hinsert : insertAddress job.size p.av newLocality .inserted =
        some (newLocality, p.av ++ [newLocality.fabricData]) := by
      simp [insertAddress, fiAvInsert, haddress, hlength, hi]
      rw [← haddress]
    have hstep : BootStep job t s p s _ := .insert .inserted hpc
    rw [hinsert] at hstep
    refine ⟨_, _, hstep, by simp [BootProcess.afterInsert], ?_⟩
    simp [BootProcess.work, hpc, BootProcess.afterInsert]
    omega
  | done => exact absurd hpc hrunning
  | terminated => exact absurd hpc hnot

/-- A run from `c` has come to `d`, and has terminated no further process. -/
def WithoutFailure (job : Job n) (c d : Config PmiStore (BootProcess n)) : Prop :=
  (bootSystem job).Steps c d ∧ ∀ (t : ℕ) (p' : BootProcess n), d.threads[t]? = some p' →
    p'.pc = .terminated → ∃ p, c.threads[t]? = some p ∧ p.pc = .terminated

/-- It goes on with a step that does not terminate the process. -/
theorem WithoutFailure.step (h : WithoutFailure job c c') (hget : c'.threads[t]? = some p)
    (hstep : BootStep job t c'.shared p s' p') (hnot : p'.pc ≠ .terminated) :
    WithoutFailure job c ⟨s', c'.threads.set t p'⟩ := by
  refine ⟨h.1.tail (.thread t hget hstep), fun u q hq hpc => ?_⟩
  rcases ThreadSystem.getElem?_set_cases hq with ⟨-, rfl⟩ | ⟨-, hq⟩
  · exact absurd hpc hnot
  · exact h.2 u q hq hpc

/-- The store along a run: who has arrived stays. -/
theorem arrived_of_steps (h : (bootSystem job).Steps c c') {r : ℕ}
    (hr : c.shared.arrived r = true) : c'.shared.arrived r = true := by
  refine h.shared_rel (R := fun s s' => s.arrived r = true → s'.arrived r = true) ?_ ?_ ?_ hr
  · exact fun _ h => h
  · exact fun _ _ _ h₁ h₂ h => h₂ (h₁ h)
  · exact fun _ _ _ _ _ hstep h => BootStep.arrived hstep h

/-- When all processes that are running are in the fence, every rank has arrived. -/
theorem WithoutFailure.all_arrived (hd : (bootSystem job).Reachable c')
    (h : WithoutFailure job c c')
    (harrived : ∀ (t : ℕ) (p : BootProcess n), c.threads[t]? = some p → p.pc = .terminated →
      c.shared.arrived t = true)
    (hfence : ∀ (t : ℕ) (p : BootProcess n), c'.threads[t]? = some p →
      ¬ (p.pc = .done ∨ p.pc = .terminated) → p.pc = .inFence) :
    ∀ r < job.size, c'.shared.arrived r = true := by
  intro r hr
  obtain ⟨q, hget⟩ : ∃ q, c'.threads[r]? = some q := by
    rw [← length_of_reachable hd] at hr
    exact ⟨_, List.getElem?_eq_getElem hr⟩
  have hplaced := (placed_of_reachable hd r _ hget).2
  by_cases hend : q.pc = .done ∨ q.pc = .terminated
  · rcases hend with hdone | hend
    · rw [hdone] at hplaced
      exact hplaced r hr
    · obtain ⟨p, hp, hpc⟩ := h.2 r _ hget hend
      exact arrived_of_steps h.1 (harrived r p hp hpc)
  · rw [hfence r _ hget hend] at hplaced
    exact hplaced

/-- If all that were terminated had arrived, the others can finish. -/
theorem exists_finished (hc : (bootSystem job).Reachable c)
    (harrived : ∀ (t : ℕ) (p : BootProcess n), c.threads[t]? = some p → p.pc = .terminated →
      c.shared.arrived t = true) :
    ∃ c', WithoutFailure job c c' ∧ ∀ p ∈ c'.threads, p.pc = .done ∨ p.pc = .terminated := by
  have hnearer : ∀ d, (bootSystem job).Reachable d → WithoutFailure job c d →
      ¬ (∀ p ∈ d.threads, p.pc = .done ∨ p.pc = .terminated) →
      ∃ d', (bootSystem job).Step d d' ∧ WithoutFailure job c d' ∧
        (d'.threads.map (BootProcess.work job)).sum <
          (d.threads.map (BootProcess.work job)).sum := by
    intro d hd hrun hexists
    -- some running process is not in the fence, or all that are running are
    have hfree : ∃ (t : ℕ) (p : BootProcess n), d.threads[t]? = some p ∧
        ¬ (p.pc = .done ∨ p.pc = .terminated) ∧
          (p.pc = .inFence → ∀ r < job.size, d.shared.arrived r = true) := by
      by_cases hfree : ∃ (t : ℕ) (p : BootProcess n), d.threads[t]? = some p ∧
          ¬ (p.pc = .done ∨ p.pc = .terminated) ∧ p.pc ≠ .inFence
      · obtain ⟨t, p, hget, hrunning, hfence⟩ := hfree
        exact ⟨t, p, hget, hrunning, fun h => absurd h hfence⟩
      · push Not at hfree hexists
        obtain ⟨p, hp, hrunning⟩ := hexists
        obtain ⟨t, hget⟩ := List.getElem?_of_mem hp
        refine ⟨t, p, hget, not_or.mpr hrunning, fun _ => ?_⟩
        exact hrun.all_arrived hd harrived fun t p hget h => hfree t p hget (not_or.mp h)
    obtain ⟨t, p, hget, hrunning, hfence⟩ := hfree
    rw [not_or] at hrunning
    obtain ⟨s', p', hstep, hnot, hwork⟩ := BootProcess.exists_step (.reachable hd t p hget)
      (placed_of_reachable hd t p hget).2 hrunning.1 hrunning.2 hfence
    have hsum : ((d.threads.set t p').map (BootProcess.work job)).sum + p.work job =
        (d.threads.map (BootProcess.work job)).sum + p'.work job := ThreadSystem.sum_map_set _ hget
    exact ⟨_, .thread t hget hstep, hrun.step hget hstep hnot, by simp only; omega⟩
  obtain ⟨c', -, hrun, hfinal⟩ := hc.exists_steps _ hnearer
    ⟨.refl, fun t p hget hpc => ⟨p, hget, hpc⟩⟩
  exact ⟨c', hrun, hfinal⟩

/-- From any state of any run, the processes that are still running can all finish if and only if
every process that an exception has ended had reached the fence before, or none is running. -/
theorem boot_canFinish_iff (hc : (bootSystem job).Reachable c) :
    (∃ c', (bootSystem job).Steps c c' ∧ ∀ (t : ℕ) (p p' : BootProcess n),
      c.threads[t]? = some p → c'.threads[t]? = some p' → p.pc ≠ .terminated → p'.pc = .done) ↔
      (∀ p ∈ c.threads, p.pc = .terminated) ∨ ∀ (t : ℕ) (p : BootProcess n),
        c.threads[t]? = some p → p.pc = .terminated → c.shared.arrived t = true := by
  constructor
  · rintro ⟨c', hsteps, hfinish⟩
    rw [or_iff_not_imp_left]
    intro hrunning t p hget hpc
    push Not at hrunning
    obtain ⟨q, hq, hq_pc⟩ := hrunning
    obtain ⟨u, hu⟩ := List.getElem?_of_mem hq
    have hreach := hc.steps hsteps
    have hlt : ∀ {v : ℕ} {l : BootProcess n}, c.threads[v]? = some l → v < job.size := by
      intro v l hv
      rw [← length_of_reachable hc]
      exact (List.getElem?_eq_some_iff.mp hv).1
    -- the one that finishes has seen all arrive
    have hu' := List.getElem?_eq_getElem
      ((length_of_reachable hreach).symm ▸ hlt hu : u < c'.threads.length)
    have hplaced := (placed_of_reachable hreach u _ hu').2
    rw [hfinish u q _ hu hu' hq_pc] at hplaced
    rw [← (stays_terminated hc hsteps hget hpc).2]
    exact hplaced t (hlt hget)
  · rintro (hnone | harrived)
    · refine ⟨c, .refl, fun t p p' hget _ hpc => ?_⟩
      exact absurd (hnone p (List.mem_of_getElem? hget)) hpc
    · obtain ⟨c', ⟨hsteps, hterminated⟩, hfinal⟩ := exists_finished hc harrived
      refine ⟨c', hsteps, fun t p p' hget hget' hpc => ?_⟩
      rcases hfinal p' (List.mem_of_getElem? hget') with hdone | hend
      · exact hdone
      · obtain ⟨q, hq, hq_pc⟩ := hterminated t p' hget' hend
        rw [Option.some.inj (hget.symm.trans hq)] at hpc
        exact absurd hq_pc hpc

/-- Two ranks that use PMIx. -/
def pairJobPmix : Job 8 := { pairJob with variant := .pmix }

/-- One of them fails before the fence, and the other cannot finish. -/
theorem boot_canFinish_iff_failed :
    (bootSystem pairJobPmix).Reachable ⟨⟨fun _ => none, fun _ => false⟩,
      [{ BootProcess.start pairJobPmix 0 with pc := .terminated },
        BootProcess.start pairJobPmix 1]⟩ ∧
    ¬ ∃ c', (bootSystem pairJobPmix).Steps ⟨⟨fun _ => none, fun _ => false⟩,
        [{ BootProcess.start pairJobPmix 0 with pc := .terminated },
          BootProcess.start pairJobPmix 1]⟩ c' ∧
      ∀ (t : ℕ) (p p' : BootProcess 8),
        [{ BootProcess.start pairJobPmix 0 with pc := .terminated },
          BootProcess.start pairJobPmix 1][t]? = some p →
        c'.threads[t]? = some p' → p.pc ≠ .terminated → p'.pc = .done := by
  have h0 : (bootSystem pairJobPmix).Reachable ⟨⟨fun _ => none, fun _ => false⟩,
      [BootProcess.start pairJobPmix 0, BootProcess.start pairJobPmix 1]⟩ := .start ⟨rfl, rfl⟩
  have h1 := h0.next 0 rfl (.fail rfl (by simp [BootProcess.start]))
  refine ⟨h1, fun hfinish => ?_⟩
  rcases (boot_canFinish_iff h1).mp hfinish with hnone | harrived
  · have := hnone _ (List.mem_of_getElem? (i := 1) rfl)
    cases this
  · have := harrived 0 _ rfl rfl
    cases this

end LibFatbat
