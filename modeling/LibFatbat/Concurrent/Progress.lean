import LibFatbat.Concurrent.History

/-!
# Runs that can come to an end

A run can go on to a goal if, as long as it is not there, some step takes it nearer, by a measure
of the configuration (`Reachable.exists_steps`). The steps taken may keep a property that others
would not. Where the measure is the work that each thread has left, it is enough that some thread
can take a step that leaves less to itself (`Reachable.exists_final`): there is no deadlock.
-/

namespace Concurrent

/-- Work that is made of main steps and of further steps: a main step counts for more than all that
it can add to the other ones. -/
theorem mul_add_lt_mul_add {bound main main' rest rest' : ℕ} (hmain : main' < main)
    (hrest : rest' ≤ rest + bound) : (bound + 1) * main' + rest' < (bound + 1) * main + rest := by
  have hmul : (bound + 1) * (main' + 1) ≤ (bound + 1) * main := Nat.mul_le_mul_left _ hmain
  rw [Nat.mul_succ] at hmul
  omega

namespace ThreadSystem

variable {σ τ : Type*} {S : ThreadSystem σ τ}

/-- A run goes on to a goal, if some step that keeps `I` always takes it nearer. -/
theorem Reachable.exists_steps {I goal : Config σ τ → Prop} (measure : Config σ τ → ℕ)
    (hprogress : ∀ c, S.Reachable c → I c → ¬ goal c →
      ∃ c', S.Step c c' ∧ I c' ∧ measure c' < measure c)
    {c : Config σ τ} (hc : S.Reachable c) (hI : I c) : ∃ c', S.Steps c c' ∧ I c' ∧ goal c' := by
  induction hn : measure c using Nat.strong_induction_on generalizing c with
  | _ n ih =>
    by_cases hgoal : goal c
    · exact ⟨c, .refl, hI, hgoal⟩
    · obtain ⟨d, hstep, hd, hlt⟩ := hprogress c hc hI hgoal
      obtain ⟨c', hsteps, hI', hend⟩ := ih _ (hn ▸ hlt) (.step hc hstep) hd rfl
      exact ⟨c', Relation.ReflTransGen.head hstep hsteps, hI', hend⟩

/-- A run goes on until all threads are at their ends, if some thread can always leave itself less
to do. -/
theorem Reachable.exists_final {final : τ → Prop} (work : τ → ℕ)
    (hprogress : ∀ c, S.Reachable c → (∃ l ∈ c.threads, ¬ final l) →
      ∃ i l s' l', c.threads[i]? = some l ∧ S.step i c.shared l s' l' ∧ work l' < work l)
    {c : Config σ τ} (hc : S.Reachable c) : ∃ c', S.Steps c c' ∧ ∀ l ∈ c'.threads, final l := by
  -- the measure is the work that all threads have to do
  have hnearer : ∀ c, S.Reachable c → True → ¬ (∀ l ∈ c.threads, final l) →
      ∃ c', S.Step c c' ∧ True ∧ (c'.threads.map work).sum < (c.threads.map work).sum := by
    intro c hc _ hrunning
    push Not at hrunning
    obtain ⟨i, l, s', l', hget, hstep, hlt⟩ := hprogress c hc hrunning
    have hsum : ((c.threads.set i l').map work).sum + work l =
        (c.threads.map work).sum + work l' := sum_map_set work hget
    exact ⟨_, .thread i hget hstep, trivial, by simp only; omega⟩
  obtain ⟨c', hsteps, -, hfinal⟩ := hc.exists_steps _ hnearer trivial
  exact ⟨c', hsteps, hfinal⟩

end ThreadSystem

end Concurrent
