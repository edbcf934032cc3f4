import LibFatbat.Communicator.Refinement

/-!
# The locks of the queues

Which locks a thread holds while the user's code runs. A poll function reads its queue under a lock
and handles what it has read after the lock is released, but for a cancelled receive, whose
handler `poll_recv_queue_default` calls inside the scope of the lock. Where no cancelled receive
has a callback, or the lock is bypassed, the user's code never runs under a lock and no thread
tries to take a mutex that it holds (`unlocked_of_lockSafe`).
-/

open Concurrent

namespace LibFatbat

variable {cfg : Setup} {i : ℕ} {s s' : Shared} {f : Frame} {fs : List Frame}
  {c : Config Shared (List Frame)}

/-! ### Holding a lock -/

/-- The locks of the two queues. -/
inductive QueueLock
  | send
  | recv

def Shared.mutex (s : Shared) : QueueLock → Option ℕ
  | .send => s.sendMutex
  | .recv => s.recvMutex

def Setup.bypass (cfg : Setup) : QueueLock → Bool
  | .send => cfg.bypassTxLock
  | .recv => cfg.bypassRxLock

/-- Whether a frame is in the scope of a lock. -/
def Frame.inLock : QueueLock → Frame → Bool
  | .send => Frame.inSendLock
  | .recv => Frame.inRecvLock

/-- Whether a frame is about to take a lock. -/
def Frame.tries : QueueLock → Frame → Bool
  | .send, .polling .trySendLock => true
  | .recv, .polling (.recvLock _) => true
  | _, _ => false

/-- A thread holds a mutex exactly if one of its frames is in the scope of its lock. -/
def Holds (cfg : Setup) (q : QueueLock) (i : ℕ) (s : Shared) (stack : List Frame) : Prop :=
  if cfg.bypass q then s.mutex q = none
  else stack.countP (Frame.inLock q) = if s.mutex q = some i then 1 else 0

/-- What a step on the running frame does to a lock: take it, release it, or leave it. -/
theorem FrameStep.lock_cases (q : QueueLock) (h : FrameStep cfg i s f s' fs) :
    (cfg.bypass q = false ∧ s.mutex q = none ∧ s'.mutex q = some i ∧ f.inLock q = false ∧
      fs.countP (Frame.inLock q) = 1) ∨
    (f.inLock q = true ∧ s'.mutex q = none ∧ fs.countP (Frame.inLock q) = 0) ∨
    (s'.mutex q = s.mutex q ∧
      (cfg.bypass q = false → fs.countP (Frame.inLock q) = [f].countP (Frame.inLock q))) := by
  cases q with
  | send =>
    cases h with
    | txLock hbypass hfree => exact .inl ⟨hbypass, hfree, rfl, rfl, rfl⟩
    | txEntries | txNothing => exact .inr (.inl ⟨rfl, rfl, rfl⟩)
    | txBypass hbypass =>
      exact .inr (.inr ⟨rfl, fun h => by simp [Setup.bypass, hbypass] at h⟩)
    | _ => exact .inr (.inr ⟨rfl, fun _ => by
        simp [List.countP_cons, Frame.inLock, Frame.inSendLock]⟩)
  | recv =>
    cases h with
    | rxLock hbypass hfree => exact .inl ⟨hbypass, hfree, rfl, rfl, rfl⟩
    | rxEntries | rxNothing | rxCancelDone => exact .inr (.inl ⟨rfl, rfl, rfl⟩)
    | rxBypass hbypass =>
      exact .inr (.inr ⟨rfl, fun h => by simp [Setup.bypass, hbypass] at h⟩)
    | _ => exact .inr (.inr ⟨rfl, fun _ => by
        simp [List.countP_cons, Frame.inLock, Frame.inRecvLock]⟩)

theorem Shared.mutex_drop (q : QueueLock) (s : Shared) (frames : List Frame) :
    (s.drop frames).mutex q =
      if 0 < frames.countP (Frame.inLock q) then none else s.mutex q := by
  simp only [List.countP_pos_iff, ← List.any_eq_true]
  cases q <;> rfl

/-- What a step of thread `i` does to a lock: nothing, or `i` takes or releases it. -/
theorem CommStep.lock_cases (q : QueueLock) {stack stack' : List Frame}
    (h : CommStep cfg i s stack s' stack') (hi : Holds cfg q i s stack) :
    Holds cfg q i s' stack' ∧ (s'.mutex q = s.mutex q ∨
      s.mutex q = none ∧ s'.mutex q = some i ∨ s.mutex q = some i ∧ s'.mutex q = none) := by
  unfold Holds at hi ⊢
  cases hbypass : cfg.bypass q with
  | true =>
    -- the lock is never taken, so that its mutex stays free
    simp only [hbypass, if_true] at hi ⊢
    have hnone : s'.mutex q = none := by
      cases h with
      | run h =>
        obtain ⟨h⟩ := h
        rcases h.lock_cases q with ⟨hfalse, -⟩ | ⟨-, hnone, -⟩ | ⟨heq, -⟩
        · rw [hbypass] at hfalse
          cases hfalse
        · exact hnone
        · rw [heq, hi]
      | unwind =>
        rw [Shared.mutex_drop, hi]
        split <;> rfl
    exact ⟨hnone, .inl (by rw [hnone, hi])⟩
  | false =>
    -- the thread has the mutex as often as frames of its stack are in the scope of the lock
    simp only [hbypass, Bool.false_eq_true, if_false] at hi ⊢
    cases h with
    | run h =>
      obtain ⟨h⟩ := h
      rename_i f fs rest
      have hcons : (f :: rest).countP (Frame.inLock q) =
          [f].countP (Frame.inLock q) + rest.countP (Frame.inLock q) := by
        rw [← List.countP_append]
        rfl
      rw [List.countP_append]
      rcases h.lock_cases q with
        ⟨-, hfree, htaken, hout, hone⟩ | ⟨hin, hnone, hzero⟩ | ⟨heq, hcount⟩
      · -- the thread takes the mutex, having had no frame in the scope of its lock
        simp only [hfree, reduceCtorEq, if_false] at hi
        refine ⟨?_, .inr (.inl ⟨hfree, htaken⟩)⟩
        rw [htaken, if_pos rfl]
        omega
      · -- it leaves the scope, of which the running frame was the only one
        have hf : [f].countP (Frame.inLock q) = 1 := by simp [hin]
        have hheld : s.mutex q = some i := by
          by_contra hne
          rw [if_neg hne] at hi
          omega
        rw [if_pos hheld] at hi
        refine ⟨?_, .inr (.inr ⟨hheld, hnone⟩)⟩
        rw [hnone]
        simp only [reduceCtorEq, if_false]
        omega
      · -- neither the mutex nor the scope changes
        refine ⟨?_, .inl heq⟩
        rw [heq, ← hi, hcons, hcount hbypass]
    | @unwind f g dropped rest =>
      rw [Shared.mutex_drop]
      rw [List.countP_append] at hi
      by_cases hpos : 0 < (f :: dropped).countP (Frame.inLock q)
      · -- the destructor of the lock runs when its frame is dropped
        have hheld : s.mutex q = some i := by
          by_contra hne
          rw [if_neg hne] at hi
          omega
        rw [if_pos hheld] at hi
        rw [if_pos hpos]
        refine ⟨?_, .inr (.inr ⟨hheld, rfl⟩)⟩
        simp only [reduceCtorEq, if_false]
        omega
      · rw [if_neg hpos]
        exact ⟨by omega, .inl rfl⟩

theorem holds_of_reachable (q : QueueLock) (hc : (communicator cfg).Reachable c) : ∀ (j : ℕ)
    (stack : List Frame), c.threads[j]? = some stack → Holds cfg q j c.shared stack := by
  refine hc.forall_threads (P := fun j s stack => Holds cfg q j s stack) ?_ ?_ ?_
  · rintro c ⟨hshared, hstacks⟩ j stack hget
    rw [hshared, hstacks stack (List.mem_of_getElem? hget)]
    unfold Holds
    split <;> cases q <;> rfl
  · intro c j stack s' stack' _ _ hP h
    exact (h.lock_cases q hP).1
  · intro c j k stack stack₂ s' stack' _ _ _ hne hj hk h
    obtain ⟨hj', hcases⟩ := h.lock_cases q hj
    unfold Holds at hj hj' hk ⊢
    split
    · rename_i hbypass
      rwa [if_pos hbypass] at hj'
    · rename_i hbypass
      rw [if_neg hbypass] at hk
      -- the step leaves `k` without the mutex if it was
      rw [hk]
      rcases hcases with heq | ⟨hfree, htaken⟩ | ⟨hheld, hnone⟩
      · rw [heq]
      · simp [hfree, htaken, Ne.symm hne]
      · simp [hheld, hnone, Ne.symm hne]

/-- A thread with a frame in the scope of a lock holds the mutex. -/
theorem mutex_of_inLock {q : QueueLock} (hc : (communicator cfg).Reachable c) {stack : List Frame}
    (hget : c.threads[i]? = some stack) (hf : f ∈ stack) (hbypass : cfg.bypass q = false)
    (hlock : f.inLock q) : c.shared.mutex q = some i := by
  have hholds := holds_of_reachable q hc i _ hget
  have hpos : 0 < stack.countP (Frame.inLock q) := List.countP_pos_iff.mpr ⟨f, hf, hlock⟩
  rw [Holds, if_neg (by simp [hbypass])] at hholds
  by_contra hne
  rw [if_neg hne] at hholds
  omega

/-! ### Callbacks under a lock -/

/-- A frame in the scope of `recv_mutex_` while a handler runs. -/
def Frame.isRxCancelled : Frame → Bool
  | .polling (.rxCancelled _) => true
  | _ => false

/-- A handler of a call without a callback. -/
def Frame.isSilent : Frame → Bool
  | .handling _ _ .running => false
  | .handling x _ _ => !x.hasCallback
  | _ => false

/-- On the frame of a cancelled receive there is only the handler of a call without a callback. -/
def Frame.Above (g h : Frame) : Prop := h.isRxCancelled → g.isSilent

/-- The step does not find a cancelled receive with a callback under the lock. -/
def LockSafe (cfg : Setup) (s s' : Shared) : Prop :=
  cfg.bypassRxLock = true ∨
    ∀ x, s'.core.log = .cancelled x :: s.core.log → x.hasCallback = false

/-- The runs whose steps are all such. -/
def lockSafe (cfg : Setup) : ThreadSystem Shared (List Frame) :=
  (communicator cfg).restrict fun _ s _ s' _ => LockSafe cfg s s'

theorem FrameStep.above {rest : List Frame} (h : FrameStep cfg i s f s' fs)
    (hbypass : cfg.bypassRxLock = false) (hsafe : LockSafe cfg s s')
    (hstored : ∀ x a cancelled, f = .handling x a (.invokeCb cancelled) →
      s.core.callback a = x.callback)
    (hrest : (f :: rest).IsChain Frame.Above) : (fs ++ rest).IsChain Frame.Above := by
  have htail : rest.IsChain Frame.Above := hrest.tail
  -- below a frame that is not such a handler there is no cancelled receive
  have hnew' {g : Frame} (hf : ¬ f.isSilent) : (g :: rest).IsChain Frame.Above := by
    cases rest with
    | nil => simp
    | cons h₀ rest =>
      rw [List.isChain_cons_cons] at hrest ⊢
      exact ⟨fun hcancel => absurd (hrest.1 hcancel) hf, htail⟩
  have hnew (hf : f.isSilent = false) (g : Frame) : (g :: rest).IsChain Frame.Above :=
    hnew' (by simp [hf])
  have hsame (g : Frame) (hg : g.isSilent = f.isSilent) : (g :: rest).IsChain Frame.Above := by
    cases rest with
    | nil => simp
    | cons h₀ rest =>
      rw [List.isChain_cons_cons] at hrest ⊢
      exact ⟨fun hcancel => by rw [hg]; exact hrest.1 hcancel, htail⟩
  cases h with
  | @rxCancel o rest' retry hkind hops =>
    -- the only step that puts a frame on a cancelled receive
    have hsilent : o.call.hasCallback = false := by
      rcases hsafe with hsafe | hsafe
      · rw [hsafe] at hbypass
        cases hbypass
      · exact hsafe o.call rfl
    refine List.isChain_cons_cons.mpr ⟨fun _ => ?_, hnew rfl _⟩
    simp [Frame.isSilent, hsilent]
  | @invokeCb x a cancelled cb hcb =>
    obtain ⟨-, hhas, -⟩ := Call.callback_eq_some ((hstored x a cancelled rfl).symm.trans hcb)
    refine hnew' fun hsilent => ?_
    simp [Frame.isSilent, hhas] at hsilent
  | skipCb | clear => exact hsame _ rfl
  | call huser | poll huser | waitMsg huser | waitWrites target huser =>
    refine List.isChain_cons_cons.mpr ⟨fun hcancel => ?_, hrest⟩
    unfold Frame.isUser at huser
    split at huser <;> first | cases hcancel | cases huser
  | executeAgain => exact List.isChain_cons_cons.mpr ⟨(nomatch ·), hrest⟩
  | writemsgAgain | txEntry | rxEntry =>
    exact List.isChain_cons_cons.mpr ⟨(nomatch ·), hnew rfl _⟩
  | exit | ret | pollDone | push | waitReturn | writesReturn => exact htail
  | _ => exact hnew rfl _

/-- The callback of an operation that is completed or cancelled is still in its context. -/
theorem callback_of_handling (hc : (communicator cfg).Reachable c) {j : ℕ} {stack : List Frame}
    (hget : c.threads[j]? = some stack) {x : Call} {a : ℕ} {cancelled : Bool}
    (hf : .handling x a (.invokeCb cancelled) ∈ stack) :
    c.shared.core.callback a = x.callback := by
  have hheld : (⟨x, some a, (HandlerPc.invokeCb cancelled).stage, false⟩ : Token) ∈ tokens c :=
    mem_tokens_of_frame hget hf (Multiset.mem_singleton_self _)
  have harmed := armed_of_mem (reachable_lifecycle hc) _ hheld
  cases cancelled <;> exact harmed a rfl rfl

theorem above_of_lockSafe (hbypass : cfg.bypassRxLock = false) (hc : (lockSafe cfg).Reachable c) :
    ∀ stack ∈ c.threads, stack.IsChain Frame.Above := by
  refine hc.invariant (I := fun c => ∀ stack ∈ c.threads, stack.IsChain Frame.Above) ?_ ?_
  · rintro c ⟨-, hstacks⟩ stack hstack
    rw [hstacks stack hstack]
    simp
  · rintro c _ hc ih ⟨j, hget, h, hsafe⟩ stack hstack
    rcases List.mem_or_eq_of_mem_set hstack with hstack | rfl
    · exact ih stack hstack
    · have hchain := ih _ (List.mem_of_getElem? hget)
      cases h with
      | run h =>
        obtain ⟨h⟩ := h
        refine h.above hbypass hsafe (fun x a cancelled hf => ?_) hchain
        exact callback_of_handling hc.of_restrict hget (List.mem_cons.mpr (.inl hf.symm))
      | unwind => exact hchain.right_of_append

theorem Frame.not_isSilent_of_isCaller (hf : f.isCaller) : f.isSilent = false := by
  cases f with
  | handling x a pc => cases pc <;> first | rfl | cases hf
  | _ => rfl

/-- Above a cancelled receive there is its handler. -/
theorem exists_isSilent {rest : List Frame} (hchain : (f :: rest).IsChain Frame.Above) {h : Frame}
    (hmem : h ∈ rest) (hcancel : h.isRxCancelled) : ∃ g ∈ f :: rest, g.isSilent := by
  induction rest generalizing f with
  | nil => cases hmem
  | cons g rest ih =>
    rw [List.isChain_cons_cons] at hchain
    rcases List.mem_cons.mp hmem with rfl | hmem
    · exact ⟨f, List.mem_cons_self .., hchain.1 hcancel⟩
    · obtain ⟨g', hg', hsilent⟩ := ih hchain.2 hmem
      exact ⟨g', List.mem_cons_of_mem _ hg', hsilent⟩

/-- A thread that holds a mutex below the running frame is in a handler of a cancelled receive. -/
theorem exists_isRxCancelled (hc : (communicator cfg).Reachable c) {rest : List Frame}
    (hget : c.threads[i]? = some (f :: rest)) {q : QueueLock} (hf : f.inLock q = false)
    (hheld : c.shared.mutex q = some i) :
    cfg.bypass q = false ∧ q = .recv ∧ ∃ h ∈ rest, h.isRxCancelled := by
  have hholds := holds_of_reachable q hc i _ hget
  -- with the lock bypassed nobody holds the mutex
  unfold Holds at hholds
  by_cases hbypass : cfg.bypass q
  · rw [if_pos hbypass, hheld] at hholds
    cases hholds
  · rw [if_neg hbypass, if_pos hheld] at hholds
    -- some frame of the stack holds it, and it is not the running one
    have hpos : 0 < (f :: rest).countP (Frame.inLock q) := by omega
    obtain ⟨h, hmem, hlock⟩ := List.countP_pos_iff.mp hpos
    rcases List.mem_cons.mp hmem with rfl | hmem
    · rw [hf] at hlock
      cases hlock
    · have hcaller := callers_of_reachable hc i _ hget h hmem
      refine ⟨by simpa using hbypass, ?_⟩
      cases q with
      | send =>
        simp only [Frame.inLock, Frame.inSendLock] at hlock
        split at hlock <;> cases hlock
        cases hcaller
      | recv =>
        -- a caller with a lock is one that runs the handler of a cancelled receive
        refine ⟨rfl, h, hmem, ?_⟩
        simp only [Frame.inLock, Frame.inRecvLock] at hlock
        split at hlock <;> cases hlock
        · cases hcaller
        · rfl

/-- Where the running frame is neither in a lock nor a handler without callback, the thread holds
no mutex. -/
theorem mutex_ne_of_lockSafe (hc : (lockSafe cfg).Reachable c) {rest : List Frame}
    (hget : c.threads[i]? = some (f :: rest)) (q : QueueLock) (hf : f.inLock q = false)
    (hsilent : f.isSilent = false) : c.shared.mutex q ≠ some i := by
  intro hheld
  obtain ⟨hbypass, rfl, h, hmem, hcancel⟩ := exists_isRxCancelled hc.of_restrict hget hf hheld
  have hchain := above_of_lockSafe hbypass hc _ (List.mem_of_getElem? hget)
  obtain ⟨g, hg, hgs⟩ := exists_isSilent hchain hmem hcancel
  rcases List.mem_cons.mp hg with rfl | hg
  · rw [hsilent] at hgs
    cases hgs
  · have hcaller := callers_of_reachable hc.of_restrict i _ hget g hg
    rw [Frame.not_isSilent_of_isCaller hcaller] at hgs
    cases hgs

theorem Frame.inLock_of_isUser (q : QueueLock) (hf : f.isUser) : f.inLock q = false := by
  unfold isUser at hf
  cases q <;> split at hf <;> first | rfl | cases hf

/-- In a run whose steps find no cancelled receive with a callback under the lock, the user's code
runs without the locks, and no thread tries to take a mutex that it holds. -/
theorem unlocked_of_lockSafe (hc : (lockSafe cfg).Reachable c) {rest : List Frame}
    (hget : c.threads[i]? = some (f :: rest)) :
    (f.isUser → c.shared.sendMutex ≠ some i ∧ c.shared.recvMutex ≠ some i) ∧
      (∀ q, f.tries q → c.shared.mutex q ≠ some i) ∧
      ∀ s' stack', CommStep cfg i c.shared (f :: rest) s' stack' → ¬ LockSafe cfg c.shared s' →
        ∃ s'' g rest', CommStep cfg i s' stack' s'' (g :: rest') ∧ g.isUser ∧
          s''.recvMutex = some i := by
  refine ⟨fun huser => ?_, fun q htries => ?_, ?_⟩
  · have hsilent := Frame.not_isSilent_of_isCaller (Frame.isCaller_of_isUser huser)
    exact ⟨mutex_ne_of_lockSafe hc hget .send (Frame.inLock_of_isUser .send huser) hsilent,
      mutex_ne_of_lockSafe hc hget .recv (Frame.inLock_of_isUser .recv huser) hsilent⟩
  · unfold Frame.tries at htries
    split at htries
    · exact mutex_ne_of_lockSafe hc hget .send rfl rfl
    · exact mutex_ne_of_lockSafe hc hget .recv rfl rfl
    · cases htries
  · intro s' stack' h hunsafe
    -- what makes a step unsafe is a cancellation that is logged
    obtain ⟨hbypass, x, hlog, hhas⟩ : cfg.bypassRxLock = false ∧ ∃ x,
        s'.core.log = .cancelled x :: c.shared.core.log ∧ x.hasCallback = true := by
      simpa [LockSafe] using hunsafe
    cases h with
    | run h =>
      obtain ⟨h⟩ := h
      cases h with
      | @rxCancel o rest' retry hkind hops =>
        obtain rfl : o.call = x := by simpa using hlog
        have hheld : c.shared.mutex .recv = some i :=
          mutex_of_inLock hc.of_restrict hget (List.mem_cons_self ..) hbypass rfl
        have hmem : o.token ∈ tokens c := Multiset.mem_add.mpr (.inl (Multiset.mem_add.mpr
          (.inl (Multiset.mem_map_of_mem _ (hops ▸ Multiset.mem_cons_self o rest')))))
        have hstored : c.shared.core.callback o.ctx = o.call.callback :=
          armed_of_mem (reachable_lifecycle hc.of_restrict) _ hmem o.ctx rfl rfl
        obtain ⟨cb, hcb⟩ := Call.callback_isSome hhas
        -- the next step invokes the callback, and the lock is not released before
        refine ⟨_, .handling o.call o.ctx .running, _,
          .run (.top (@FrameStep.invokeCb cfg i _ _ _ true cb ?_)), rfl, hheld⟩
        exact hstored.trans hcb
      | _ => simp [Shared.accept, Shared.retire] at hlog
    | unwind => simp [Shared.drop] at hlog

/-- An injecting `send` invokes its callback. -/
theorem unlocked_of_lockSafe_inject :
    ∃ (cfg : Setup) (c : Config Shared (List Frame)) (f : Frame) (rest : List Frame),
      (lockSafe cfg).Reachable c ∧ c.threads[0]? = some (f :: rest) ∧ f.isUser ∧
        (∃ x args, .invoked x args ∈ c.shared.core.log) ∧ c.shared.sendMutex ≠ some 0 ∧
        c.shared.recvMutex ≠ some 0 := by
  have h0 : (lockSafe ⟨.other, .domain, .single, false, 64, 16⟩).Reachable
      ⟨.start, [[.main]]⟩ := .start ⟨rfl, by simp⟩
  have h1 := h0.next 0 rfl ⟨.run (.top (.call
    (x := ⟨0, .send, 1#64, 5#64, 8, 0, 0#64, 0#64, 0#64, true⟩) rfl rfl)), .inr (by rintro x ⟨⟩)⟩
  have h2 := h1.next 0 rfl ⟨.run (.top .count), .inr (by rintro x ⟨⟩)⟩
  have h3 := h2.next 0 rfl ⟨.run (.top (.injectAccepted 0 rfl)), .inr (by rintro x ⟨⟩)⟩
  have h4 := h3.next 0 rfl ⟨.run (.top .injectComplete), .inr (by rintro x ⟨⟩)⟩
  have h5 := h4.next 0 rfl ⟨.run (.top (.injectInvoke rfl)), .inr (by rintro x ⟨⟩)⟩
  exact ⟨_, _, _, _, h5, rfl, rfl, ⟨_, _, List.mem_cons_self ..⟩,
    (unlocked_of_lockSafe h5 rfl).1 rfl⟩

/-- A cancelled receive has a callback, which runs under `recv_mutex_`, and when it polls the
thread is about to take the mutex that it holds. -/
theorem not_forall_unlocked :
    (¬ ∀ (cfg : Setup) (c : Config Shared (List Frame)) (i : ℕ) (f : Frame) (rest : List Frame),
      (communicator cfg).Reachable c → c.threads[i]? = some (f :: rest) → f.isUser →
        c.shared.recvMutex ≠ some i) ∧
    ¬ ∀ (cfg : Setup) (c : Config Shared (List Frame)) (i : ℕ) (f : Frame) (rest : List Frame),
      (communicator cfg).Reachable c → c.threads[i]? = some (f :: rest) → f.tries .recv →
        c.shared.recvMutex ≠ some i := by
  have h0 : (exceptionFree ⟨.other, .domain, .single, false, 64, 16⟩).Reachable
      ⟨.recvCancelled ⟨0, .recv, 1#64, 5#64, 8, 0, 0#64, 0#64, 0#64, true⟩, _⟩ :=
    reachable_recvCancelled rfl rfl rfl rfl (List.forall_mem_nil _)
  have h1 := exceptionFree_next h0 0 rfl (.invokeCb rfl)
  have h2 := exceptionFree_next h1 0 rfl (.poll rfl)
  have h3 := exceptionFree_next h2 0 rfl (.txLock rfl rfl)
  have h4 := exceptionFree_next h3 0 rfl .txNothing
  exact ⟨fun hall => hall _ _ 0 _ _ h1.of_restrict rfl rfl rfl,
    fun hall => hall _ _ 0 _ _ h4.of_restrict rfl rfl rfl⟩

end LibFatbat
