import LibFatbat.Communicator.Contexts
import LibFatbat.Communicator.Waiting
import LibFatbat.Concurrent.Workers

/-!
# The scope of a poller guard

The tests and benchmarks post inside the scope of a `poller_guard` (`polling_helper.hpp`). Its
constructor starts threads that poll until the flag `stop` is set; its destructor sets the flag and
joins them. The owner is the main thread, which posts, waits and polls as before.

A wait returns when the counters agree, and a callback may then still be running in a polling thread
(`not_forall_callbacksDone`). Past the scope none is: `callbacksDone_of_joined`. The contexts are
then back in the free list, but for those whose push failed, so that the destructor of their pool,
at the exit of the program, deletes each of them once: `deleted_of_joined`.
-/

open Concurrent

namespace LibFatbat

/-- `spawn_poll_thread`: in each round, a call of `poll_for_work_completions`. -/
def pollRounds : Rounds Shared (List Frame) where
  idle stack := stack = [.main]
  begins _ _ _ stack' := stack' = [.polling .trySendLock, .main]

/-- A program with a `poller_guard` of `numThreads` threads. No exception is thrown, since it would
terminate a program that it finds in a polling thread. -/
def guarded (cfg : Setup) (numThreads : ℕ) : ThreadSystem (Crew Shared) (Member (List Frame)) :=
  (exceptionFree cfg).crew pollRounds numThreads

section Runs

variable {cfg : Setup} {numThreads : ℕ} {c c₁ c₂ : Config (Crew Shared) (Member (List Frame))}

/-! ### Two moments of a run -/

theorem log_suffix_of_steps (h : (guarded cfg numThreads).Steps c₁ c₂) :
    c₁.shared.base.core.log <:+ c₂.shared.base.core.log := by
  refine h.shared_rel (R := fun g g' => g.base.core.log <:+ g'.base.core.log)
    (fun _ => List.suffix_refl _) (fun _ _ _ => List.IsSuffix.trans) ?_
  intro i g m g' m' h
  rcases ThreadSystem.CrewStep.base_cases h with ⟨h, -⟩ | ⟨hbase, -⟩
  · exact h.shared.log_suffix
  · rw [hbase]

/-- Some time in the run the complete counter of a kind was not below what the posted counter is
now: as when a wait loop has returned and nothing was posted since (`scopeWaited_of_wait`). -/
def ScopeWaited (cfg : Setup) (numThreads : ℕ) (k : Kind)
    (c : Config (Crew Shared) (Member (List Frame))) : Prop :=
  ∃ c₁, (guarded cfg numThreads).Reachable c₁ ∧ (guarded cfg numThreads).Steps c₁ c ∧
    ¬ c₁.shared.base.core.complete k < c.shared.base.core.posted k

/-- A wait of the thread that owns the guard, or of a callback in a polling thread, that is about to
return, with nothing posted since it read the counter. -/
theorem scopeWaited_of_wait (hc₁ : (guarded cfg numThreads).Reachable c₁) (i : ℕ) {pc : WaitPc}
    {rest : List Frame} {role : Role} (hget : c₁.threads[i]? = some ⟨.waiting pc :: rest, role⟩)
    {k : Kind} {p : BitVec 32} (hwaited : (k, p) ∈ pc.waited)
    (hrun : (guarded cfg numThreads).Steps c₁ c)
    (hsmall : c.shared.base.core.count (Event.isCountedOf k) < 2 ^ 32)
    (hposted : p = c.shared.base.core.posted k) : ScopeWaited cfg numThreads k c := by
  refine ⟨c₁, hc₁, hrun, ?_⟩
  have hbase := hc₁.base.of_restrict
  have hget' : c₁.base.threads[i]? = some (.waiting pc :: rest) := by simp [Config.base, hget]
  obtain ⟨n, hn, hle⟩ := covered_of_waited hbase hget' hwaited
  have hcomplete := (counters_eq (reachable_lifecycle hbase) k).2
  have hcompleted := count_completed_le hbase k
  have hmono : c₁.shared.base.core.count (Event.isCountedOf k) ≤
      c.shared.base.core.count (Event.isCountedOf k) := count_mono (log_suffix_of_steps hrun) _
  simp only [Config.base] at hn hcomplete hcompleted
  -- the counter has not wrapped around, so it is not below what the wait has read of it
  rw [hposted, BitVec.not_lt, BitVec.le_def, BitVec.toNat_ofNat, Nat.mod_eq_of_lt (by omega)] at hle
  rw [hcomplete, BitVec.not_lt, BitVec.le_def, BitVec.toNat_ofNat, Nat.mod_eq_of_lt (by omega)]
  omega

/-- Nothing that was waited for is outstanding, unless a counter has wrapped around. -/
theorem outstanding_eq_zero (hc : (guarded cfg numThreads).Reachable c) {k : Kind}
    (hwaited : ScopeWaited cfg numThreads k c)
    (hsmall : c.shared.base.core.count (Event.isCountedOf k) < 2 ^ 32) :
    outstanding k c.base = 0 := by
  obtain ⟨c₁, hc₁, hrun, hread⟩ := hwaited
  have hbefore := (counters_eq (reachable_lifecycle hc₁.base.of_restrict) k).2
  have hnow := (counters_eq (reachable_lifecycle hc.base.of_restrict) k).1
  have hsum := accounting_eq (reachable_lifecycle hc.base.of_restrict) k
  have hmono : c₁.shared.base.core.count (Event.isCompletedOf k) ≤
      c.shared.base.core.count (Event.isCompletedOf k) := count_mono (log_suffix_of_steps hrun) _
  simp only [Config.base] at hbefore hnow hsum
  -- below `2 ^ 32` neither counter has wrapped around
  have hwraps : c₁.shared.base.core.count (Event.isCompletedOf k) / 2 ^ 32 =
      c.shared.base.core.count (Event.isCountedOf k) / 2 ^ 32 := by
    rw [Nat.div_eq_of_lt hsmall, Nat.div_eq_of_lt (by omega)]
  rw [hbefore, hnow, WrappingCounter.ofNat_lt_ofNat_iff hwraps] at hread
  unfold outstanding
  simp only [Config.base]
  omega

end Runs

/-! ### A receive in the scope -/

section GuardedReceive

variable {cfg : Setup} {numThreads : ℕ} {c : Config (Crew Shared) (Member (List Frame))}

/-- The owner goes on with a step of its running frame. -/
theorem guarded_own (hc : (guarded cfg numThreads).Reachable c) {s' : Shared} {f : Frame}
    {fs rest : List Frame} {pc : OwnerPc} (hpc : pc.isFree)
    (hget : c.threads[0]? = some ⟨f :: rest, .owner pc⟩)
    (h : FrameStep cfg 0 c.shared.base f s' fs) :
    (guarded cfg numThreads).Reachable
      ⟨{ c.shared with base := s' }, c.threads.set 0 ⟨fs ++ rest, .owner pc⟩⟩ :=
  hc.next 0 hget (.own hpc ⟨.run (.top h), .top h⟩)

/-- A polling thread goes on in its round. -/
theorem guarded_round (hc : (guarded cfg numThreads).Reachable c) (i : ℕ) {s' : Shared}
    {f g : Frame} {fs rest : List Frame}
    (hget : c.threads[i]? = some ⟨f :: g :: rest, .worker .round⟩)
    (h : FrameStep cfg i c.shared.base f s' fs) :
    (guarded cfg numThreads).Reachable
      ⟨{ c.shared with base := s' }, c.threads.set i ⟨fs ++ g :: rest, .worker .round⟩⟩ :=
  hc.next i hget (.round nofun ⟨.run (.top h), .top h⟩)

/-- The owner posts a receive in the scope. -/
theorem reachable_guarded_recvPosted {x : Call} (hid : x.id = 0) (hfunc : x.func = .recv) :
    (guarded cfg 1).Reachable ⟨⟨.recvPosted x, false, 1, []⟩,
      [⟨[.main], .owner .scope⟩, ⟨[.main], .worker .test⟩]⟩ := by
  obtain ⟨id, func, peer, tag, size, buffer, remoteAddr, remoteKey, immData, hasCallback⟩ := x
  obtain rfl : id = 0 := hid
  obtain rfl : func = .recv := hfunc
  have h0 : (guarded cfg 1).Reachable
      ⟨⟨.start, false, 0, []⟩, [⟨[.main], .owner .before⟩, ⟨[.main], .worker .test⟩]⟩ :=
    .start ⟨⟨rfl, by simp [Config.base]⟩, rfl, rfl, rfl, _, _, rfl, rfl, by simp [pollRounds]⟩
  have h1 := h0.next 0 rfl (.construct rfl)
  have h2 := h1.next 0 rfl (.start Nat.one_pos)
  have h3 := h2.next 0 rfl .enter
  have h4 := guarded_own h3 rfl rfl (.call
    (x := ⟨0, .recv, peer, tag, size, buffer, remoteAddr, remoteKey, immData, hasCallback⟩) rfl rfl)
  have h5 := guarded_own h4 rfl rfl .count
  have h6 := guarded_own h5 rfl rfl .acquire
  have h7 := guarded_own h6 rfl rfl .setCallback
  have h8 := guarded_own h7 rfl rfl (.executeAccepted 0 rfl)
  exact guarded_own h8 rfl rfl .ret

/-- The polling thread then counts it as complete. -/
theorem reachable_guarded_recvCompleted {x : Call} (htx : cfg.bypassTxLock = true)
    (hrx : cfg.bypassRxLock = true) (hmax : 1 ≤ cfg.maxCompletionsPerPoll) (hid : x.id = 0)
    (hfunc : x.func = .recv) :
    (guarded cfg 1).Reachable ⟨⟨.recvCompleted x, false, 1, []⟩, [⟨[.main], .owner .scope⟩,
      ⟨[.handling x 0 (.invokeCb false), .polling (.rxBatch [] 1 (cfg.full 0)), .main],
        .worker .round⟩]⟩ := by
  have hkind : x.kind = .recv := congrArg Func.kind hfunc
  have h0 : (guarded cfg 1).Reachable _ := reachable_guarded_recvPosted hid hfunc
  have h1 := h0.next 1 rfl (.testGo le_rfl rfl)
  have h2 := h1.next 1 rfl (.begin ⟨.run (.top (.poll rfl)), .top (.poll rfl)⟩ rfl)
  have h3 := guarded_round h2 1 rfl (.txBypass htx)
  have h4 := guarded_round h3 1 rfl .txNothing
  have h5 := guarded_round h4 1 rfl (.rxBypass hrx)
  have h6 := guarded_round h5 1 rfl
    (.rxEntries [.recv ⟨x, 0⟩ (fiRecv ||| fiTagged) hkind documented_recv] 0 hmax rfl)
  exact guarded_round h6 1 rfl (.rxEntry (classifyRx_eq documented_recv))

/-- The callback runs, the owner waits, and the polling thread is joined. -/
theorem exists_guarded_recv :
    ∃ c, (guarded ⟨.other, .safe, .single, false, 64, 16⟩ 1).Reachable c ∧
      c.threads[0]? = some ⟨[.main], .owner .joined⟩ ∧
        .counted ⟨0, .recv, 1#64, 5#64, 8, 0, 0#64, 0#64, 0#64, true⟩ ∈ c.shared.base.core.log ∧
          c.shared.base.core.nextCtx = 1 ∧ .pushed 0 false ∉ c.shared.base.core.log ∧
            ∀ k, ScopeWaited ⟨.other, .safe, .single, false, 64, 16⟩ 1 k c ∧
              c.shared.base.core.count (Event.isCountedOf k) < 2 ^ 32 := by
  have h0 : (guarded ⟨.other, .safe, .single, false, 64, 16⟩ 1).Reachable
      ⟨⟨.recvCompleted ⟨0, .recv, 1#64, 5#64, 8, 0, 0#64, 0#64, 0#64, true⟩, _, _, _⟩, _⟩ :=
    reachable_guarded_recvCompleted rfl rfl (by decide) rfl rfl
  have h1 := guarded_round h0 1 rfl (.invokeCb rfl)
  have h2 := guarded_round h1 1 rfl .callbackReturn
  have h3 := guarded_round h2 1 rfl .clear
  have h4 := guarded_round h3 1 rfl (.push true)
  have h5 := guarded_round h4 1 rfl .rxDone
  have h6 := guarded_round h5 1 rfl .pollDone
  have h7 := h6.next 1 rfl (.next rfl)
  have h8 := guarded_own h7 rfl rfl (.waitMsg rfl)
  have h9 := guarded_own h8 rfl rfl .waitReadComplete
  have h10 := guarded_own h9 rfl rfl .waitReadPosted
  have h11 := guarded_own h10 rfl rfl (.waitRecvs (by decide))
  have h12 := guarded_own h11 rfl rfl .waitReadComplete
  have h13 := guarded_own h12 rfl rfl .waitReadPosted
  have h14 := guarded_own h13 rfl rfl (.waitDone (by decide))
  have hreturn := h14.steps_refl.next 0 rfl
    (.own rfl ⟨.run (.top .waitReturn), .top .waitReturn⟩)
  have hstop := hreturn.next 0 rfl (.stop rfl)
  have hreturned := hstop.next 1 rfl (.testStop le_rfl rfl)
  have hjoin := hreturned.next 0 rfl (.join Nat.one_pos List.mem_cons_self)
  have hleave := hjoin.next 0 rfl .leave
  have hend := h14.steps hleave
  refine ⟨_, hend, rfl, by decide, rfl, by decide, fun k => ⟨?_, by cases k <;> decide⟩⟩
  cases k with
  | send =>
    exact scopeWaited_of_wait h14 0 rfl (WaitPc.mem_waited_msgReturn _ _).1 hleave (by decide) rfl
  | recv =>
    exact scopeWaited_of_wait h14 0 rfl (WaitPc.mem_waited_msgReturn _ _).2 hleave (by decide) rfl
  | read | write =>
    -- none was posted
    exact ⟨_, hend, .refl, by decide⟩

end GuardedReceive

section Joined

variable {cfg : Setup} {numThreads : ℕ} {c : Config (Crew Shared) (Member (List Frame))}

/-! ### Past the scope -/

/-- Past the scope, with the owner back in its own code, no thread is in a call. -/
theorem stack_of_joined (hc : (guarded cfg numThreads).Reachable c)
    (howner : c.threads[0]? = some ⟨[.main], .owner .joined⟩) :
    ∀ stack ∈ c.base.threads, stack = [.main] := by
  intro stack hstack
  obtain ⟨m, hm, rfl⟩ := List.mem_map.mp hstack
  obtain ⟨i, hget⟩ := List.getElem?_of_mem hm
  cases i with
  | zero =>
    rw [howner] at hget
    rw [← Option.some.inj hget]
  | succ i => exact (ThreadSystem.idle_of_joined hc howner i.succ_ne_zero hget).2

/-- Past the scope the callbacks of all operations that were waited for have returned, in every
interleaving. -/
theorem callbacksDone_of_joined (hc : (guarded cfg numThreads).Reachable c)
    (howner : c.threads[0]? = some ⟨[.main], .owner .joined⟩) (k : Kind)
    (hwaited : ScopeWaited cfg numThreads k c)
    (hsmall : c.shared.base.core.count (Event.isCountedOf k) < 2 ^ 32) :
    CallbacksDone c.shared.base.core k := by
  have hnone := outstanding_eq_zero hc hwaited hsmall
  refine (callbacksDone_iff_of_exceptionFree hc.base k).mpr ⟨?_, ?_⟩
  · rintro stack hstack f hf ⟨x, -, -, hin⟩
    rw [stack_of_joined hc howner stack hstack, List.mem_singleton] at hf
    subst hf
    rcases hin with hin | hin <;> cases hin
  · have hle := outstandingCallbacks_le k c.base
    omega

/-- The callback of a receive has returned when the polling thread that runs it is joined. -/
theorem callbacksDone_of_joined_recv :
    ∃ (c : Config (Crew Shared) (Member (List Frame))) (x : Call), x.hasCallback ∧
      .counted x ∈ c.shared.base.core.log ∧ CallbacksDone c.shared.base.core .recv := by
  obtain ⟨c, hc, howner, hcounted, -, -, hall⟩ := exists_guarded_recv
  exact ⟨c, _, rfl, hcounted, callbacksDone_of_joined hc howner .recv (hall .recv).1 (hall .recv).2⟩

/-! ### The pool of contexts at the exit of the program -/

/-- The loop of `~pool_storage`, over what is left of the free list. -/
def destroyFreeList : List ℕ → List ℕ → List ℕ
  | [], deleted => deleted
  | ctx :: rest, deleted => destroyFreeList rest (ctx :: deleted)

/-- `~pool_storage`. -/
def Core.destroyPool (s : Core) : Core :=
  { s with freeList := [], deleted := destroyFreeList s.freeList s.deleted }

theorem count_destroyFreeList (a : ℕ) (free deleted : List ℕ) :
    (destroyFreeList free deleted).count a = free.count a + deleted.count a := by
  induction free generalizing deleted with
  | nil => simp [destroyFreeList]
  | cons ctx rest ih =>
    rw [destroyFreeList, ih, List.count_cons, List.count_cons]
    omega

/-- At exit no context is deleted that was deleted before, and those that are not deleted are in
flight, in the hands of a thread, or were abandoned. -/
theorem count_deleted_destroyPool {c : Config Shared (List Frame)}
    (hc : (communicator cfg).Reachable c) (a : ℕ) :
    c.shared.core.destroyPool.deleted.count a ≤ 1 ∧
      (c.shared.core.destroyPool.deleted.count a = 1 ↔ a < c.shared.core.nextCtx ∧
        a ∉ inflightContexts c ∧ a ∉ heldContexts c ∧ a ∉ abandonedContexts c) := by
  have hplace := (ownedOnce_of_reachable hc).place a
  simp only [Core.destroyPool, count_destroyFreeList]
  rw [← Multiset.count_eq_zero, ← Multiset.count_eq_zero, ← Multiset.count_eq_zero]
  split at hplace <;> omega

/-- Past the scope no thread has a context in its hands. -/
theorem heldContexts_of_joined (hc : (guarded cfg numThreads).Reachable c)
    (howner : c.threads[0]? = some ⟨[.main], .owner .joined⟩) : heldContexts c.base = 0 := by
  refine List.sum_eq_zero fun contexts hcontexts => ?_
  obtain ⟨stack, hstack, rfl⟩ := List.mem_map.mp hcontexts
  rw [stack_of_joined hc howner stack hstack]
  rfl

/-- An operation in flight is outstanding. -/
theorem inflight_eq_zero_of_outstanding {c : Config Shared (List Frame)}
    (hnone : ∀ k, outstanding k c = 0) : c.shared.inflight = 0 := by
  refine Multiset.eq_zero_of_forall_notMem fun o ho => ?_
  have hmem : o.token ∈ tokens c :=
    Multiset.mem_add.mpr (.inl (Multiset.mem_add.mpr (.inl (Multiset.mem_map_of_mem _ ho))))
  have hpos := countTokens_pos (p := Token.isOutstanding o.call.kind) hmem (by
    simp [Token.isOutstanding, Op.token, Stage.isCounted, Stage.isSettled])
  exact absurd (hnone o.call.kind) (Nat.pos_iff_ne_zero.mp hpos)

/-- A program that waits for its operations inside the scope has every context that it has made back
in the free list, or deleted because the push failed; and it deletes each of them once in all. -/
theorem deleted_of_joined (hc : (guarded cfg numThreads).Reachable c)
    (howner : c.threads[0]? = some ⟨[.main], .owner .joined⟩)
    (hwaited : ∀ k, ScopeWaited cfg numThreads k c)
    (hsmall : ∀ k, c.shared.base.core.count (Event.isCountedOf k) < 2 ^ 32) (a : ℕ) :
    (a < c.shared.base.core.nextCtx →
      (.pushed a false ∉ c.shared.base.core.log →
        c.shared.base.core.freeList.count a = 1 ∧ a ∉ c.shared.base.core.deleted) ∧
      (.pushed a false ∈ c.shared.base.core.log →
        c.shared.base.core.deleted.count a = 1 ∧ a ∉ c.shared.base.core.freeList)) ∧
      c.shared.base.core.destroyPool.deleted.count a =
        if a < c.shared.base.core.nextCtx then 1 else 0 := by
  -- no operation is outstanding, and no handler or function has a context
  have hinflight : c.base.shared.inflight = 0 :=
    inflight_eq_zero_of_outstanding fun k => outstanding_eq_zero hc (hwaited k) (hsmall k)
  have hheld := heldContexts_of_joined hc howner
  have hkept := abandonedContexts_eq_zero hc.base
  refine ⟨(ownedOnce_of_reachable hc.base.of_restrict).back hinflight hheld hkept a, ?_⟩
  -- so the free list and the deleted ones are all there are
  obtain ⟨hle, hiff⟩ := count_deleted_destroyPool hc.base.of_restrict a
  rw [inflightContexts, hinflight, Multiset.map_zero, hheld, hkept] at hiff
  simp only [Multiset.notMem_zero, not_false_eq_true, and_true] at hiff
  show c.base.shared.core.destroyPool.deleted.count a = _
  split
  · next hlt => exact hiff.mpr hlt
  · next hnot =>
    have hne := mt hiff.mp hnot
    omega

/-- The context of a receive is in the free list, and then deleted. -/
theorem deleted_of_joined_recv :
    ∃ c : Config (Crew Shared) (Member (List Frame)),
      c.threads[0]? = some ⟨[.main], .owner .joined⟩ ∧ c.shared.base.core.freeList.count 0 = 1 ∧
        c.shared.base.core.destroyPool.deleted.count 0 = 1 := by
  obtain ⟨c, hc, howner, -, hctx, hpushed, hall⟩ := exists_guarded_recv
  obtain ⟨hback, hdeleted⟩ :=
    deleted_of_joined hc howner (fun k => (hall k).1) (fun k => (hall k).2) 0
  rw [hctx] at hback hdeleted
  exact ⟨c, howner, ((hback Nat.one_pos).1 hpushed).1, hdeleted⟩

end Joined

end LibFatbat
