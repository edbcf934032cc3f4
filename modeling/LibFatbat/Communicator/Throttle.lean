import LibFatbat.Bits.Counter
import LibFatbat.Communicator.Accounting
import LibFatbat.Concurrent.History

/-!
# Throttling

One thread of the communicator posts, and calls a throttle function of `test_utils.hpp` before each
post; the others poll. The condition of the loop subtracts two counters that are read one after the
other while the pollers go on, and that wrap around.

Only the thread that is in the loop increments what is posted, so the difference is what was in
flight when what is complete was read. Main result: `throttle_bounds`.
-/

open Concurrent

namespace LibFatbat

/-- The throttle functions of `test_utils.hpp`. -/
inductive ThrottleFunction
  | throttleWritesInflight
  | throttleReadsInflight
  | throttleMsgsInflight

/-- The kinds whose counters the condition of the loop subtracts, in the order of the operands of
`||`. -/
def ThrottleFunction.kinds : ThrottleFunction → List Kind
  | throttleWritesInflight => [.write]
  | throttleReadsInflight => [.read]
  | throttleMsgsInflight => [.send, .recv]

/-- The number of operations of a kind that are counted as posted and not as complete. -/
def Core.inFlight (k : Kind) (s : Core) : ℕ :=
  s.count (Event.isCountedOf k) - s.count (Event.isCompletedOf k)

/-- Where a throttle function is: at the first of `kinds`, with the values of the two counters that
it has read; or past the loop. -/
structure ThrottlePc where
  kinds : List Kind
  posted : Option (BitVec 32)
  complete : Option (BitVec 32)
  /-- What was in flight when each of the two values was read; the code has nothing like it. -/
  held : List ℕ

/-- Before the counters of the first of `kinds` are read. -/
def ThrottlePc.start (kinds : List Kind) : ThrottlePc := ⟨kinds, none, none, []⟩

/-- A thread that may throttle. -/
structure ThrottleThread where
  stack : List Frame
  /-- The throttle function that the thread is in, called by the running frame. -/
  loop : Option ThrottlePc
  /-- The kinds of which nothing was posted since the last throttle function returned. -/
  throttled : Kind → Bool

/-- The steps of thread `i` when thread `poster` alone posts operations of the kinds of `fn`, and
calls `fn` with `maxInflight` before each of them. -/
inductive ThrottleStep (cfg : Setup) (fn : ThrottleFunction) (maxInflight : BitVec 32)
    (poster i : ℕ) : Shared → ThrottleThread → Shared → ThrottleThread → Prop
  -- An operation that is counted uses up what the throttle function has allowed.
  | comm {s s' : Shared} {l : ThrottleThread} {stack' : List Frame} (hloop : l.loop = none)
      (h : CommStep cfg i s l.stack s' stack')
      (hpost : ∀ k ∈ fn.kinds, nextCounted l.stack = some k → i = poster ∧ l.throttled k) :
      ThrottleStep cfg fn maxInflight poster i s l s'
        { l with stack := stack'
                 throttled := fun k => l.throttled k && nextCounted l.stack ≠ some k }
  | call {s : Shared} {l : ThrottleThread} {f : Frame} {rest : List Frame} (hposter : i = poster)
      (hloop : l.loop = none) (hstack : l.stack = f :: rest) (huser : f.isUser) :
      ThrottleStep cfg fn maxInflight poster i s l s { l with loop := some (.start fn.kinds) }
  -- The operands of `-` are read in either order.
  | readPosted {s : Shared} {l : ThrottleThread} {k : Kind} {ks : List Kind}
      {complete : Option (BitVec 32)} {held : List ℕ}
      (hloop : l.loop = some ⟨k :: ks, none, complete, held⟩) :
      ThrottleStep cfg fn maxInflight poster i s l s
        { l with loop := some ⟨k :: ks, some (s.core.posted k), complete,
                               s.core.inFlight k :: held⟩ }
  | readComplete {s : Shared} {l : ThrottleThread} {k : Kind} {ks : List Kind}
      {posted : Option (BitVec 32)} {held : List ℕ}
      (hloop : l.loop = some ⟨k :: ks, posted, none, held⟩) :
      ThrottleStep cfg fn maxInflight poster i s l s
        { l with loop := some ⟨k :: ks, posted, some (s.core.complete k),
                               s.core.inFlight k :: held⟩ }
  -- An operand of `||` is true: the thread sleeps and evaluates the condition again.
  | again {s : Shared} {l : ThrottleThread} {k : Kind} {ks : List Kind} {p q : BitVec 32}
      {held : List ℕ} (hloop : l.loop = some ⟨k :: ks, some p, some q, held⟩)
      (hge : maxInflight ≤ p - q) :
      ThrottleStep cfg fn maxInflight poster i s l s { l with loop := some (.start fn.kinds) }
  -- It is false: the thread goes on to the next one, or returns.
  | next {s : Shared} {l : ThrottleThread} {k : Kind} {ks : List Kind} {p q : BitVec 32}
      {held : List ℕ} (hloop : l.loop = some ⟨k :: ks, some p, some q, held⟩)
      (hlt : ¬ maxInflight ≤ p - q) :
      ThrottleStep cfg fn maxInflight poster i s l s { l with loop := some (.start ks) }
  | ret {s : Shared} {l : ThrottleThread} {p q : Option (BitVec 32)} {held : List ℕ}
      (hloop : l.loop = some ⟨[], p, q, held⟩) :
      ThrottleStep cfg fn maxInflight poster i s l s
        { l with loop := none, throttled := fun k => k ∈ fn.kinds }

/-- The threads of a program that throttles. -/
def throttledCommunicator (cfg : Setup) (fn : ThrottleFunction) (maxInflight : BitVec 32)
    (poster : ℕ) : ThreadSystem Shared ThrottleThread where
  init c := c.shared = .start ∧ ∀ l ∈ c.threads, l = ⟨[.main], none, fun _ => false⟩
  step := ThrottleStep cfg fn maxInflight poster

variable {cfg : Setup} {fn : ThrottleFunction} {maxInflight : BitVec 32} {poster i : ℕ}
  {s s' : Shared} {l l' : ThrottleThread} {c : Config Shared ThrottleThread} {k : Kind}

/-- A program that throttles is a program that uses the communicator. -/
theorem reachable_communicator
    (hc : (throttledCommunicator cfg fn maxInflight poster).Reachable c) :
    (communicator cfg).Reachable (c.map ThrottleThread.stack) := by
  refine hc.project ThrottleThread.stack ?_ ?_
  · rintro c ⟨hshared, hthreads⟩
    refine ⟨hshared, fun stack hstack => ?_⟩
    obtain ⟨l, hl, rfl⟩ := List.mem_map.mp hstack
    rw [hthreads l hl]
  · intro i s l s' l' h
    cases h with
    | comm _ h => exact .inl h
    | _ => exact .inr ⟨rfl, rfl⟩

/-! ### What a step counts -/

/-- A step changes what is in flight of a kind only by completions, unless it is the poster's, past
the throttle function, and counts an operation of the kind. -/
theorem ThrottleStep.inFlight_cases (h : ThrottleStep cfg fn maxInflight poster i s l s' l')
    (hk : k ∈ fn.kinds) :
    (s'.core.count (Event.isCountedOf k) = s.core.count (Event.isCountedOf k) ∧
        s'.core.inFlight k ≤ s.core.inFlight k) ∨
      (i = poster ∧ l.throttled k ∧ s'.core.inFlight k ≤ s.core.inFlight k + 1 ∧
        l'.throttled k = false ∧ l'.loop = none) := by
  cases h with
  | comm hloop h hpost =>
    have hcounted := h.count_counted k
    -- a step may also complete operations, of any kind
    have hcompleted : s.core.count (Event.isCompletedOf k) ≤
        s'.core.count (Event.isCompletedOf k) := h.shared.log_suffix.sublist.countP_le
    by_cases hnext : nextCounted l.stack = some k
    · rw [if_pos hnext] at hcounted
      obtain ⟨hposter, hthrottled⟩ := hpost k hk hnext
      refine .inr ⟨hposter, hthrottled, ?_, by simp [hnext], hloop⟩
      simp only [Core.inFlight]
      omega
    · rw [if_neg hnext] at hcounted
      refine .inl ⟨hcounted, ?_⟩
      simp only [Core.inFlight]
      omega
  | _ => exact .inl ⟨rfl, le_rfl⟩

theorem ThrottleStep.log_suffix (h : ThrottleStep cfg fn maxInflight poster i s l s' l') :
    s.core.log <:+ s'.core.log := by
  cases h with
  | comm _ h => exact h.shared.log_suffix
  | _ => exact List.suffix_refl _

/-! ### What the loop knows -/

/-- The values that the loop has read were those of the counters: nothing was posted since, and what
was in flight with `n` complete was in flight at one of the reads. -/
structure ThrottlePc.Sound (fn : ThrottleFunction) (maxInflight : ℕ) (s : Core) (pc : ThrottlePc) :
    Prop where
  kinds : pc.kinds ⊆ fn.kinds
  passed : ∀ k ∈ fn.kinds, k ∈ pc.kinds ∨ s.inFlight k < maxInflight
  posted : ∀ k ∈ pc.kinds.head?, ∀ p ∈ pc.posted,
    p = BitVec.ofNat 32 (s.count (Event.isCountedOf k))
  complete : ∀ k ∈ pc.kinds.head?, ∀ q ∈ pc.complete, ∃ n ≤ s.count (Event.isCompletedOf k),
    q = BitVec.ofNat 32 n ∧ s.count (Event.isCountedOf k) ≤ n + maxInflight ∧
      s.count (Event.isCountedOf k) - n ∈ pc.held

/-- Past the throttle function, and until it posts, the thread may post one operation. -/
structure ThrottleThread.Sound (fn : ThrottleFunction) (maxInflight : ℕ) (s : Core)
    (l : ThrottleThread) : Prop where
  throttled : ∀ k ∈ fn.kinds, l.throttled k → s.inFlight k < maxInflight
  loop : ∀ pc ∈ l.loop, pc.Sound fn maxInflight s

section Sound

variable {n : ℕ} {s s' : Core} {pc : ThrottlePc} {l : ThrottleThread} {ks : List Kind}
  {p q : BitVec 32} {held : List ℕ}

theorem ThrottlePc.Sound.mono (h : pc.Sound fn n s) (hlog : s.log <:+ s'.log)
    (hstep : ∀ k ∈ fn.kinds, s'.count (Event.isCountedOf k) = s.count (Event.isCountedOf k) ∧
      s'.inFlight k ≤ s.inFlight k) : pc.Sound fn n s' := by
  refine ⟨h.kinds, fun k hk => ?_, fun k hk p hp => ?_, fun k hk q hq => ?_⟩
  · exact (h.passed k hk).imp_right (hstep k hk).2.trans_lt
  · rw [h.posted k hk p hp, (hstep k (h.kinds (List.mem_of_mem_head? hk))).1]
  · obtain ⟨m, hm, heq, hmax, hheld⟩ := h.complete k hk q hq
    rw [← (hstep k (h.kinds (List.mem_of_mem_head? hk))).1] at hmax hheld
    exact ⟨m, hm.trans hlog.sublist.countP_le, heq, hmax, hheld⟩

theorem ThrottleThread.Sound.mono (h : l.Sound fn n s) (hlog : s.log <:+ s'.log)
    (hstep : ∀ k ∈ fn.kinds, s'.count (Event.isCountedOf k) = s.count (Event.isCountedOf k) ∧
      s'.inFlight k ≤ s.inFlight k) : l.Sound fn n s' :=
  ⟨fun k hk hl => (hstep k hk).2.trans_lt (h.throttled k hk hl),
    fun pc hpc => (h.loop pc hpc).mono hlog hstep⟩

/-- Nothing is known before the counters are read. -/
theorem ThrottlePc.Sound.start (hkinds : ks ⊆ fn.kinds)
    (hpassed : ∀ k ∈ fn.kinds, k ∈ ks ∨ s.inFlight k < n) : (start ks).Sound fn n s :=
  ⟨hkinds, hpassed, nofun, nofun⟩

/-- The difference of the two values is what was in flight at one of the two reads, and nothing was
posted since. -/
theorem ThrottlePc.Sound.toNat_sub (h : ThrottlePc.Sound fn n s ⟨k :: ks, some p, some q, held⟩)
    (hle : s.count (Event.isCompletedOf k) ≤ s.count (Event.isCountedOf k)) (hn : n < 2 ^ 32) :
    (p - q).toNat ∈ held ∧ s.inFlight k ≤ (p - q).toNat := by
  obtain ⟨m, hm, rfl, hmax, hheld⟩ := h.complete k rfl q rfl
  obtain rfl := h.posted k rfl p rfl
  rw [WrappingCounter.toNat_ofNat_sub_ofNat (hm.trans hle) (by omega)]
  exact ⟨hheld, Nat.sub_le_sub_left hm _⟩

end Sound

/-- A step of the poster keeps what it knows. -/
theorem ThrottleStep.sound (h : ThrottleStep cfg fn maxInflight poster i s l s' l')
    (hcounters : ∀ k,
      s.core.posted k = BitVec.ofNat 32 (s.core.count (Event.isCountedOf k)) ∧
        s.core.complete k = BitVec.ofNat 32 (s.core.count (Event.isCompletedOf k)))
    (hle : ∀ k, s.core.count (Event.isCompletedOf k) ≤ s.core.count (Event.isCountedOf k))
    (hflight : ∀ k ∈ fn.kinds, s.core.inFlight k ≤ maxInflight.toNat)
    (hl : l.Sound fn maxInflight.toNat s.core) : l'.Sound fn maxInflight.toNat s'.core := by
  have hcases {k : Kind} (hk : k ∈ fn.kinds) := h.inFlight_cases hk
  cases h with
  | comm hloop h hpost =>
    refine ⟨fun k hk hthrottled => ?_, fun pc hpc => absurd (hloop ▸ hpc) (by simp)⟩
    obtain ⟨hthrottled', -⟩ := Bool.and_eq_true_iff.mp hthrottled
    rcases hcases hk with ⟨-, hless⟩ | ⟨-, -, -, hnone, -⟩
    · exact hless.trans_lt (hl.throttled k hk hthrottled')
    · -- the permission is used up
      exact absurd hthrottled (Bool.eq_false_iff.mp hnone)
  | call | again =>
    refine ⟨hl.throttled, fun pc hpc => ?_⟩
    obtain rfl := Option.mem_some_iff.mp hpc
    exact .start (List.Subset.refl _) fun k hk => .inl hk
  | @readPosted _ k ks complete held hloop =>
    have hpc := hl.loop _ hloop
    refine ⟨hl.throttled, fun pc hpc' => ?_⟩
    obtain rfl := Option.mem_some_iff.mp hpc'
    refine ⟨hpc.kinds, hpc.passed, fun k' hk' p hp => ?_, fun k' hk' q hq => ?_⟩
    · obtain rfl := Option.mem_some_iff.mp hk'
      obtain rfl := Option.mem_some_iff.mp hp
      exact (hcounters k).1
    · obtain ⟨n, hn, heq, hmax, hheld⟩ := hpc.complete k' hk' q hq
      exact ⟨n, hn, heq, hmax, List.mem_cons_of_mem _ hheld⟩
  | @readComplete _ k ks posted held hloop =>
    have hpc := hl.loop _ hloop
    refine ⟨hl.throttled, fun pc hpc' => ?_⟩
    obtain rfl := Option.mem_some_iff.mp hpc'
    refine ⟨hpc.kinds, hpc.passed, hpc.posted, fun k' hk' q hq => ?_⟩
    obtain rfl := Option.mem_some_iff.mp hk'
    obtain rfl := Option.mem_some_iff.mp hq
    have hmax := hflight k (hpc.kinds (List.mem_cons_self ..))
    exact ⟨_, le_rfl, (hcounters k).2, Nat.sub_le_iff_le_add'.mp hmax, List.mem_cons_self ..⟩
  | @next _ k ks p q held hloop hlt =>
    have hpc := hl.loop _ hloop
    obtain ⟨-, hsub⟩ := hpc.toNat_sub (hle k) maxInflight.isLt
    have hbelow : (p - q).toNat < maxInflight.toNat := BitVec.not_le.mp hlt
    refine ⟨hl.throttled, fun pc hpc' => ?_⟩
    obtain rfl := Option.mem_some_iff.mp hpc'
    refine .start (fun k' hk' => hpc.kinds (List.mem_cons_of_mem _ hk')) fun k' hk' => ?_
    rcases hpc.passed k' hk' with hmem | hpassed
    · rcases List.mem_cons.mp hmem with rfl | hmem
      · exact .inr (hsub.trans_lt hbelow)
      · exact .inl hmem
    · exact .inr hpassed
  | ret hloop =>
    -- every operand of `||` was false
    have hpc := hl.loop _ hloop
    refine ⟨fun k hk _ => ?_, nofun⟩
    exact (hpc.passed k hk).resolve_left List.not_mem_nil

/-- Nothing is complete that is not posted. -/
theorem completed_le_counted (hc : (throttledCommunicator cfg fn maxInflight poster).Reachable c)
    (k : Kind) :
    c.shared.core.count (Event.isCompletedOf k) ≤ c.shared.core.count (Event.isCountedOf k) :=
  count_completed_le (reachable_communicator hc) k

/-- What is in flight is bounded, and the poster's loop knows how far. -/
def Throttled (fn : ThrottleFunction) (maxInflight : BitVec 32) (poster : ℕ)
    (c : Config Shared ThrottleThread) : Prop :=
  (∀ k ∈ fn.kinds, c.shared.core.inFlight k ≤ maxInflight.toNat) ∧
    ∀ l, c.threads[poster]? = some l → l.Sound fn maxInflight.toNat c.shared.core

theorem throttled_of_reachable
    (hc : (throttledCommunicator cfg fn maxInflight poster).Reachable c) :
    Throttled fn maxInflight poster c := by
  refine hc.invariant (I := Throttled fn maxInflight poster) ?_ ?_
  · rintro c ⟨hshared, hthreads⟩
    refine ⟨fun k _ => by rw [hshared]; exact Nat.zero_le _, fun l hl => ?_⟩
    rw [hthreads l (List.mem_of_getElem? hl)]
    exact ⟨nofun, nofun⟩
  · rintro c _ hc ⟨hflight, hposter⟩ (@⟨l, l', s', i, hget, h⟩)
    have hcounters := counters_eq (reachable_lifecycle (reachable_communicator hc))
    refine ⟨fun k hk => ?_, fun l₁ hl₁ => ?_⟩
    · rcases h.inFlight_cases hk with ⟨-, hless⟩ | ⟨rfl, hthrottled, hless, -, -⟩
      · exact hless.trans (hflight k hk)
      · exact hless.trans ((hposter l hget).throttled k hk hthrottled)
    · rcases ThreadSystem.getElem?_set_cases hl₁ with ⟨rfl, rfl⟩ | ⟨hne, hl₁⟩
      · exact h.sound hcounters (completed_le_counted hc) hflight (hposter l hget)
      · -- another thread posts nothing of these kinds
        refine (hposter l₁ hl₁).mono h.log_suffix fun k hk => ?_
        exact (h.inFlight_cases hk).resolve_right fun hpost => hne hpost.1.symm

/-- Nothing is complete that is not posted, and at most `maxInflight` operations of a kind are in
flight. -/
def Core.AtMostInFlight (maxInflight : ℕ) (k : Kind) (s : Core) : Prop :=
  s.count (Event.isCompletedOf k) ≤ s.count (Event.isCountedOf k) ∧
    s.count (Event.isCountedOf k) - s.count (Event.isCompletedOf k) ≤ maxInflight

theorem atMostInFlight_of_mem (hc : (throttledCommunicator cfg fn maxInflight poster).Reachable c)
    (hk : k ∈ fn.kinds) : c.shared.core.AtMostInFlight maxInflight.toNat k :=
  ⟨completed_le_counted hc k, (throttled_of_reachable hc).1 k hk⟩

/-- However the threads interleave and however often the counters wrap around: of the kind that is
throttled, or of the sends and of the receives, at most `maxInflight` operations are in flight; and
when the loop has read two counters, their difference is the number of operations in flight when one
of them was read. -/
theorem throttle_bounds (hc : (throttledCommunicator cfg fn maxInflight poster).Reachable c) :
    (fn = .throttleWritesInflight → c.shared.core.AtMostInFlight maxInflight.toNat .write) ∧
      (fn = .throttleReadsInflight → c.shared.core.AtMostInFlight maxInflight.toNat .read) ∧
      (fn = .throttleMsgsInflight → c.shared.core.AtMostInFlight maxInflight.toNat .send ∧
        c.shared.core.AtMostInFlight maxInflight.toNat .recv) ∧
      ∀ l k ks p q held, c.threads[poster]? = some l →
        l.loop = some ⟨k :: ks, some p, some q, held⟩ → (p - q).toNat ∈ held := by
  refine ⟨?_, ?_, ?_, ?_⟩
  · rintro rfl
    exact atMostInFlight_of_mem hc (.head _)
  · rintro rfl
    exact atMostInFlight_of_mem hc (.head _)
  · rintro rfl
    exact ⟨atMostInFlight_of_mem hc (.head _), atMostInFlight_of_mem hc (.tail _ (.head _))⟩
  · intro l k ks p q held hl hloop
    have hpc := ((throttled_of_reachable hc).2 l hl).loop _ hloop
    exact (hpc.toNat_sub (completed_le_counted hc k) maxInflight.isLt).1

/-- A thread that is not in a throttle function goes on with a step of its running frame. -/
theorem throttled_next {f : Frame} {fs rest : List Frame} {throttled : Kind → Bool}
    (hc : (throttledCommunicator cfg fn maxInflight poster).Reachable c) (i : ℕ)
    (hget : c.threads[i]? = some ⟨f :: rest, none, throttled⟩)
    (hpost : ∀ k ∈ fn.kinds, nextCounted (f :: rest) = some k → i = poster ∧ throttled k)
    (h : FrameStep cfg i c.shared f s' fs) :
    (throttledCommunicator cfg fn maxInflight poster).Reachable ⟨s', c.threads.set i
      ⟨fs ++ rest, none, fun k => throttled k && nextCounted (f :: rest) ≠ some k⟩⟩ :=
  hc.next i hget (.comm rfl (.run (.top h)) hpost)

/-- One thread posts a write with at most one in flight, and throttles again, while another one
polls. -/
theorem reachable_throttled_write :
    ∃ (c : Config Shared ThrottleThread) (l : ThrottleThread),
      (throttledCommunicator ⟨.other, .safe, .single, false, 64, 16⟩
        .throttleWritesInflight 1#32 0).Reachable c ∧
        c.threads[0]? = some l ∧ l.loop = some ⟨[.write], some 1#32, some 0#32, [1, 1]⟩ := by
  have h0 : (throttledCommunicator ⟨.other, .safe, .single, false, 64, 16⟩
      .throttleWritesInflight 1#32 0).Reachable
      ⟨.start, [⟨[.main], none, fun _ => false⟩, ⟨[.main], none, fun _ => false⟩]⟩ :=
    .start ⟨rfl, by simp⟩
  -- nothing is in flight, and the write goes out
  have h1 := h0.next 0 rfl (.call rfl rfl rfl rfl)
  have h2 := h1.next 0 rfl (.readComplete rfl)
  have h3 := h2.next 0 rfl (.readPosted rfl)
  have h4 := h3.next 0 rfl (.next rfl (by decide))
  have h5 := h4.next 0 rfl (.ret rfl)
  have h6 := throttled_next h5 1 rfl (by decide) (.poll rfl)
  have h7 := throttled_next h6 0 rfl (by decide) (@FrameStep.call _ _ _ _
    ⟨0, .write, 1#64, 0#64, 8, 0, 0#64, 0#64, 0#64, false⟩ rfl rfl)
  have h8 := throttled_next h7 0 rfl (by decide) .acquire
  have h9 := throttled_next h8 0 rfl (by decide) .setCallback
  have h10 := throttled_next h9 0 rfl (by decide) .count
  have h11 := throttled_next h10 0 rfl (by decide) (.executeAccepted 0 rfl)
  have h12 := throttled_next h11 0 rfl (by decide) .ret
  -- it is still in flight, and the loop does not return
  have h13 := h12.next 0 rfl (.call rfl rfl rfl rfl)
  have h14 := h13.next 0 rfl (.readPosted rfl)
  have h15 := h14.next 0 rfl (.readComplete rfl)
  exact ⟨_, _, h15, rfl, rfl⟩

/-- One thread posts a receive and a send with at most one of each in flight. When it throttles
again, another thread has found the send complete, and it waits for the receive. -/
theorem reachable_throttled_msgs :
    ∃ (c : Config Shared ThrottleThread) (l : ThrottleThread),
      (throttledCommunicator ⟨.other, .safe, .single, false, 64, 16⟩
        .throttleMsgsInflight 1#32 0).Reachable c ∧
        c.threads[0]? = some l ∧ l.loop = some ⟨[.recv], some 1#32, some 0#32, [1, 1]⟩ ∧
          c.shared.core.count (Event.isCompletedOf .send) = 1 := by
  have h0 : (throttledCommunicator ⟨.other, .safe, .single, false, 64, 16⟩
      .throttleMsgsInflight 1#32 0).Reachable
      ⟨.start, [⟨[.main], none, fun _ => false⟩, ⟨[.main], none, fun _ => false⟩]⟩ :=
    .start ⟨rfl, by simp⟩
  -- sends are throttled before receives
  have h1 := h0.next 0 rfl (.call rfl rfl rfl rfl)
  have h2 := h1.next 0 rfl (.readPosted rfl)
  have h3 := h2.next 0 rfl (.readComplete rfl)
  have h4 := h3.next 0 rfl (.next rfl (by decide))
  have h5 := h4.next 0 rfl (.readPosted rfl)
  have h6 := h5.next 0 rfl (.readComplete rfl)
  have h7 := h6.next 0 rfl (.next rfl (by decide))
  have h8 := h7.next 0 rfl (.ret rfl)
  -- a receive and a send go out
  have h9 := throttled_next h8 0 rfl (by decide) (@FrameStep.call _ _ _ _
    ⟨0, .recv, 1#64, 0#64, 100, 0, 0#64, 0#64, 0#64, false⟩ rfl rfl)
  have h10 := throttled_next h9 0 rfl (by decide) .count
  have h11 := throttled_next h10 0 rfl (by decide) .acquire
  have h12 := throttled_next h11 0 rfl (by decide) .setCallback
  have h13 := throttled_next h12 0 rfl (by decide) (.executeAccepted 0 rfl)
  have h14 := throttled_next h13 0 rfl (by decide) .ret
  have h15 := throttled_next h14 0 rfl (by decide) (@FrameStep.call _ _ _ _
    ⟨1, .send, 1#64, 0#64, 100, 1, 0#64, 0#64, 0#64, false⟩ rfl rfl)
  have h16 := throttled_next h15 0 rfl (by decide) .count
  have h17 := throttled_next h16 0 rfl (by decide) .acquire
  have h18 := throttled_next h17 0 rfl (by decide) .setCallback
  have h19 := throttled_next h18 0 rfl (by decide) (.executeAccepted 0 rfl)
  have h20 := throttled_next h19 0 rfl (by decide) .ret
  -- the other thread finds the send complete, not the receive
  have h21 := throttled_next h20 1 rfl (by decide) (.poll rfl)
  have h22 := throttled_next h21 1 rfl (by decide) (.txBypass rfl)
  have h23 := throttled_next h22 1 rfl (by decide)
    (.txEntries [⟨⟨⟨1, .send, 1#64, 0#64, 100, 1, 0#64, 0#64, 0#64, false⟩, 1⟩, fiSend ||| fiTagged,
      nofun, documented_send⟩] {⟨⟨0, .recv, 1#64, 0#64, 100, 0, 0#64, 0#64, 0#64, false⟩, 0⟩}
      (by decide) rfl)
  have h24 := throttled_next h23 1 rfl (by decide) (.txEntry rfl)
  -- the loop is past the sends, and stays with the receives
  have h25 := h24.next 0 rfl (.call rfl rfl rfl rfl)
  have h26 := h25.next 0 rfl (.readPosted rfl)
  have h27 := h26.next 0 rfl (.readComplete rfl)
  have h28 := h27.next 0 rfl (.next rfl (by decide))
  have h29 := h28.next 0 rfl (.readPosted rfl)
  have h30 := h29.next 0 rfl (.readComplete rfl)
  exact ⟨_, _, h30, rfl, rfl, rfl⟩

/-- A write, and a receive, are waited for with one in flight. -/
theorem throttle_bounds_one :
    (∃ (cfg : Setup) (c : Config Shared ThrottleThread) (p q : BitVec 32) (l : ThrottleThread),
      (throttledCommunicator cfg .throttleWritesInflight 1#32 0).Reachable c ∧
        c.threads[0]? = some l ∧ l.loop = some ⟨[.write], some p, some q, [1, 1]⟩ ∧
          (p - q).toNat ∈ [1, 1] ∧ c.shared.core.AtMostInFlight 1 .write) ∧
      ∃ (cfg : Setup) (c : Config Shared ThrottleThread) (p q : BitVec 32) (l : ThrottleThread),
        (throttledCommunicator cfg .throttleMsgsInflight 1#32 0).Reachable c ∧
          c.threads[0]? = some l ∧ l.loop = some ⟨[.recv], some p, some q, [1, 1]⟩ ∧
            (p - q).toNat ∈ [1, 1] ∧ c.shared.core.count (Event.isCompletedOf .send) = 1 ∧
              c.shared.core.AtMostInFlight 1 .send ∧ c.shared.core.AtMostInFlight 1 .recv := by
  obtain ⟨c, l, hc, hget, hloop⟩ := reachable_throttled_write
  obtain ⟨hwrite, -, -, hheld⟩ := throttle_bounds hc
  obtain ⟨c', l', hc', hget', hloop', hsend⟩ := reachable_throttled_msgs
  obtain ⟨-, -, hmsgs, hheld'⟩ := throttle_bounds hc'
  exact ⟨⟨_, c, _, _, l, hc, hget, hloop, hheld _ _ _ _ _ _ hget hloop, hwrite rfl⟩,
    ⟨_, c', _, _, l', hc', hget', hloop', hheld' _ _ _ _ _ _ hget' hloop', hsend, hmsgs rfl⟩⟩

end LibFatbat
