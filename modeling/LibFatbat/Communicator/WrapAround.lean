import LibFatbat.Communicator.Waiting
import LibFatbat.Concurrent.History

/-!
# The wait loops when counters wrap around

The wait loops of `test_utils.hpp` compare two counters of 32 bits with `<`, where the throttle
loops subtract them. After `2 ^ 32` operations the posted counter is small again, and a loop that
finds it smaller than the complete counter ends, although the operations that wrapped it around are
still in flight.

Each thread records how many operations were posted before its last wait. Main result:
`awaited_complete`. A wait waits for all of them when the counters it reads have wrapped around
equally often, and a loop that reads them when they have not ends too early.
-/

open Concurrent WrappingCounter

namespace LibFatbat

/-- What a thread records when it calls a wait: how many operations of each kind are posted. -/
def noteWait (s : Shared) (stack : List Frame) (_ : Shared) (stack' : List Frame)
    (before : Kind → ℕ) : Kind → ℕ :=
  match stack' with
  | .waiting _ :: _ =>
    -- the wait is on top of its caller, and a step of the wait replaces it
    if stack.length < stack'.length then fun k => s.core.count (Event.isCountedOf k) else before
  | _ => before

/-- The communicator, with what each thread records. -/
def waitingCommunicator (cfg : Setup) : ThreadSystem Shared (List Frame × (Kind → ℕ)) :=
  (communicator cfg).withHistory (fun _ => 0) noteWait

/-- Every run of the communicator is one in which the threads record. -/
theorem exists_waiting {cfg : Setup} {c : Config Shared (List Frame)}
    (hc : (communicator cfg).Reachable c) :
    ∃ c', (waitingCommunicator cfg).Reachable c' ∧ c'.map Prod.fst = c :=
  hc.exists_history

/-- Counters that are incremented up to `complete` and `posted` have wrapped around equally often,
unless `complete` has reached `before`. -/
def CountersInStep (before complete posted : ℕ) : Prop :=
  complete < before → posted / 2 ^ 32 ≤ complete / 2 ^ 32

/-- A wait that reads counters reads them when they are in step. -/
def WaitPc.InStep (before : Kind → ℕ) (s : Core) : WaitPc → Prop
  | .msg sends complete posted =>
    let k := if sends.isNone then .send else .recv
    complete = none ∨ posted = none →
      CountersInStep (before k) (s.count (Event.isCompletedOf k)) (s.count (Event.isCountedOf k))
  | .writes target =>
    -- the target is the posted counter at the call
    target = BitVec.ofNat 32 (before .write) →
      CountersInStep (before .write) (s.count (Event.isCompletedOf .write)) (before .write)
  | .msgReturn _ _ | .writesReturn _ => True

/-- Before a step, the wait that takes it is in step. -/
def waitsInStep (_ : ℕ) (s : Shared) (l : List Frame × (Kind → ℕ)) (_ : Shared)
    (_ : List Frame × (Kind → ℕ)) : Prop :=
  ∀ pc rest, l.1 = .waiting pc :: rest → pc.InStep l.2 s.core

/-- A wait is in step when all that was posted before it is complete. -/
theorem waitsInStep_of_le {i : ℕ} {s s' : Shared} {l l' : List Frame × (Kind → ℕ)}
    (hdone : ∀ k, l.2 k ≤ s.core.count (Event.isCompletedOf k)) : waitsInStep i s l s' l' := by
  intro pc rest _
  cases pc with
  | msg => exact fun _ hlt => absurd (hdone _) (Nat.not_le.mpr hlt)
  | writes => exact fun _ hlt => absurd (hdone _) (Nat.not_le.mpr hlt)
  | msgReturn | writesReturn => trivial

/-! ### What a wait knows -/

/-- What a wait has read, and what follows for the operations posted before it. -/
def WaitPc.Known (before : Kind → ℕ) (s : Core) : WaitPc → Prop
  | .msg sends complete posted =>
    let k := if sends.isNone then .send else .recv
    (∀ k, before k ≤ s.count (Event.isCountedOf k)) ∧
      -- at the receives, the sends are done with
      (sends.isSome → before .send ≤ s.count (Event.isCompletedOf .send)) ∧
      (∀ q ∈ complete, ∃ n ≤ s.count (Event.isCompletedOf k), q = BitVec.ofNat 32 n ∧
        (s.count (Event.isCompletedOf k) < before k → before k / 2 ^ 32 ≤ n / 2 ^ 32)) ∧
      ∀ p ∈ posted, ∃ n, before k ≤ n ∧ p = BitVec.ofNat 32 n ∧
        CountersInStep (before k) (s.count (Event.isCompletedOf k)) n
  | .msgReturn _ _ => before .send ≤ s.count (Event.isCompletedOf .send) ∧
      before .recv ≤ s.count (Event.isCompletedOf .recv)
  | .writes _ => True
  | .writesReturn target => target = BitVec.ofNat 32 (before .write) →
      before .write ≤ s.count (Event.isCompletedOf .write)

variable {cfg : Setup} {i : ℕ} {s s' : Shared} {f : Frame} {fs rest : List Frame} {pc : WaitPc}
  {before : Kind → ℕ} {c : Config Shared (List Frame × (Kind → ℕ))}

theorem CountersInStep.mono {b m m' n : ℕ} (h : CountersInStep b m n) (hm : m ≤ m') :
    CountersInStep b m' n :=
  fun hlt => (h (hm.trans_lt hlt)).trans (Nat.div_le_div_right hm)

theorem WaitPc.Known.mono {s s' : Core} (h : pc.Known before s) (hlog : s.log <:+ s'.log) :
    pc.Known before s' := by
  have hmono := count_mono hlog
  cases pc with
  | msg sends complete posted =>
    obtain ⟨hbefore, hsends, hcomplete, hposted⟩ := h
    refine ⟨fun k => (hbefore k).trans (hmono _), fun hs => (hsends hs).trans (hmono _), ?_, ?_⟩
    · intro q hq
      obtain ⟨n, hn, heq, hwraps⟩ := hcomplete q hq
      exact ⟨n, hn.trans (hmono _), heq, fun hlt => hwraps ((hmono _).trans_lt hlt)⟩
    · intro p hp
      obtain ⟨n, hn, heq, hstep⟩ := hposted p hp
      exact ⟨n, hn, heq, hstep.mono (hmono _)⟩
  | msgReturn => exact ⟨h.1.trans (hmono _), h.2.trans (hmono _)⟩
  | writes => trivial
  | writesReturn => exact fun htarget => (h htarget).trans (hmono _)

/-- A loop that finds that the complete counter is not less has waited long enough. -/
theorem WaitPc.Known.le {s : Core} {sends : Option (BitVec 32)} {q p : BitVec 32}
    (h : WaitPc.Known before s (.msg sends (some q) (some p))) (hle : ¬ q < p) :
    let k := if sends.isNone then Kind.send else .recv
    before k ≤ s.count (Event.isCompletedOf k) := by
  obtain ⟨-, -, hcomplete, hposted⟩ := h
  obtain ⟨n, hn, rfl, hwraps⟩ := hcomplete q rfl
  obtain ⟨m, hm, rfl, hstep⟩ := hposted p rfl
  exact le_of_not_ofNat_lt hn hm hwraps hstep hle

/-- A wait that begins is noted. -/
theorem noteWait_begins : noteWait s (f :: rest) s' (.waiting pc :: f :: rest) before =
    fun k => s.core.count (Event.isCountedOf k) := by
  simp [noteWait]

/-- A wait that goes on is not. -/
theorem noteWait_goes_on : noteWait s (f :: rest) s' (.waiting pc :: rest) before = before := by
  simp [noteWait]

/-- A wait that is in step goes on with what it knows. -/
theorem FrameStep.known (h : FrameStep cfg i s f s' (.waiting pc :: fs))
    (hcounters : ∀ k, s.core.posted k = BitVec.ofNat 32 (s.core.count (Event.isCountedOf k)) ∧
      s.core.complete k = BitVec.ofNat 32 (s.core.count (Event.isCompletedOf k)))
    (hf : ∀ pc₀, f = .waiting pc₀ → pc₀.Known before s.core ∧ pc₀.InStep before s.core) :
    pc.Known (noteWait s (f :: rest) s' (.waiting pc :: (fs ++ rest)) before) s'.core := by
  cases h with
  | waitMsg =>
    rw [List.singleton_append, noteWait_begins]
    exact ⟨fun _ => le_rfl, nofun, nofun, nofun⟩
  | waitWrites => trivial
  | @waitReadComplete sends posted =>
    obtain ⟨⟨hbefore, hsends, -, hposted⟩, hstep⟩ := hf _ rfl
    rw [List.nil_append, noteWait_goes_on]
    refine ⟨hbefore, hsends, fun q hq => ?_, hposted⟩
    obtain rfl := Option.mem_some_iff.mp hq
    refine ⟨_, le_rfl, (hcounters _).2, fun hlt => ?_⟩
    exact (Nat.div_le_div_right (hbefore _)).trans (hstep (.inl rfl) hlt)
  | @waitReadPosted sends complete =>
    obtain ⟨⟨hbefore, hsends, hcomplete, -⟩, hstep⟩ := hf _ rfl
    rw [List.nil_append, noteWait_goes_on]
    refine ⟨hbefore, hsends, hcomplete, fun p hp => ?_⟩
    obtain rfl := Option.mem_some_iff.mp hp
    exact ⟨_, hbefore _, (hcounters _).1, hstep (.inr rfl)⟩
  | waitAgain =>
    obtain ⟨⟨hbefore, -⟩, -⟩ := hf _ rfl
    rw [List.nil_append, noteWait_goes_on]
    exact ⟨hbefore, nofun, nofun, nofun⟩
  | waitRecvs hle =>
    -- the sends are found complete
    obtain ⟨hknown, -⟩ := hf _ rfl
    rw [List.nil_append, noteWait_goes_on]
    exact ⟨hknown.1, fun _ => hknown.le hle, nofun, nofun⟩
  | waitDone hle =>
    obtain ⟨hknown, -⟩ := hf _ rfl
    rw [List.nil_append, noteWait_goes_on]
    exact ⟨hknown.2.1 rfl, hknown.le hle⟩
  | writesAgain => trivial
  | writesDone hle =>
    obtain ⟨-, hstep⟩ := hf _ rfl
    rw [List.nil_append, noteWait_goes_on]
    rintro rfl
    rw [(hcounters .write).2] at hle
    exact le_of_not_ofNat_lt le_rfl le_rfl (hstep rfl) (hstep rfl) hle

/-- In runs in which every wait is in step, a wait knows what it has read. -/
theorem known_of_reachable (hc : ((waitingCommunicator cfg).restrict waitsInStep).Reachable c) :
    ∀ (i : ℕ) (l : List Frame × (Kind → ℕ)), c.threads[i]? = some l →
      ∀ pc rest, l.1 = .waiting pc :: rest → WaitPc.Known l.2 c.shared.core pc := by
  refine hc.forall_threads
    (P := fun _ (s : Shared) (l : List Frame × (Kind → ℕ)) =>
      ∀ pc rest, l.1 = .waiting pc :: rest → WaitPc.Known l.2 s.core pc) ?_ ?_ ?_
  · rintro c ⟨⟨-, hstacks⟩, -⟩ i l hget pc rest hl
    have hmain : l.1 = [.main] := by
      refine hstacks _ (List.mem_map.mpr ⟨l, List.mem_of_getElem? hget, rfl⟩)
    rw [hmain] at hl
    cases hl
  · rintro c i ⟨stack, before⟩ s' ⟨stack', _⟩ hc hget hknown ⟨⟨hstep, hnote⟩, hok⟩ pc rest' hl
    have hcomm : (communicator cfg).Reachable (c.map Prod.fst) := hc.of_restrict.of_withHistory
    have hget' : (c.map Prod.fst).threads[i]? = some stack := by
      simp [Config.map, hget]
    simp only at hl hstep hnote
    subst hnote
    cases hstep with
    | run h =>
      obtain ⟨h⟩ := h
      rename_i f fs rest
      cases fs with
      | nil =>
        -- the frame has returned, and its caller is not a wait
        have hcaller := callers_of_reachable hcomm i _ hget' (.waiting pc)
          (by rw [List.tail_cons, ← List.nil_append rest, hl]; exact List.mem_cons_self ..)
        cases hcaller
      | cons g gs =>
        obtain ⟨rfl, rfl⟩ := List.cons.inj hl
        refine h.known (counters_eq (reachable_lifecycle hcomm)) fun pc₀ hpc₀ => ?_
        rw [hpc₀] at hknown hok
        exact ⟨hknown pc₀ rest rfl, hok pc₀ rest rfl⟩
    | unwind _ hcatch =>
      obtain ⟨rfl, -⟩ := List.cons.inj hl
      cases hcatch
  · rintro c i j l k s' l' hc hget hget' hne - hknown ⟨⟨hstep, -⟩, -⟩ pc rest hl
    exact (hknown pc rest hl).mono hstep.shared.log_suffix

/-- What a loop finds that reads the two counters in one state. -/
theorem not_complete_lt_imp_le_iff {c : Config Shared (List Frame)}
    (hc : (communicator cfg).Reachable c) {k : Kind} {b : ℕ}
    (hfew : c.shared.core.count (Event.isCountedOf k) <
      c.shared.core.count (Event.isCompletedOf k) + 2 ^ 31)
    (hb : b ≤ c.shared.core.count (Event.isCountedOf k)) :
    ((¬ c.shared.core.complete k < c.shared.core.posted k →
        b ≤ c.shared.core.count (Event.isCompletedOf k)) ↔
      CountersInStep b (c.shared.core.count (Event.isCompletedOf k))
        (c.shared.core.count (Event.isCountedOf k))) ∧
      ((¬ c.shared.core.complete k < BitVec.ofNat 32 b →
        b ≤ c.shared.core.count (Event.isCompletedOf k)) ↔
      CountersInStep b (c.shared.core.count (Event.isCompletedOf k)) b) := by
  obtain ⟨hposted, hcomplete⟩ := counters_eq (reachable_lifecycle hc) k
  simp only at hposted hcomplete
  rw [hposted, hcomplete]
  exact ⟨not_ofNat_lt_imp_le_iff hb (by omega), not_ofNat_lt_imp_le_iff le_rfl (by omega)⟩

/-- In every run in which the waits are in step: when a wait returns, as many operations are counted
complete, of each kind it has waited for, as were posted before it was called; where
`wait_for_write_completions` was called with the writes posted. And a loop that reads the counters
in one state, with fewer than `2 ^ 31` operations outstanding, only returns when they are complete
if and only if it is in step. -/
theorem awaited_complete (cfg : Setup) :
    (∀ c, ((waitingCommunicator cfg).restrict waitsInStep).Reachable c →
      ∀ (i : ℕ) (pc : WaitPc) (rest : List Frame) (before : Kind → ℕ),
        c.threads[i]? = some (.waiting pc :: rest, before) → ∀ k p, (k, p) ∈ pc.waited →
          (k = .write → p = BitVec.ofNat 32 (before .write)) →
            before k ≤ c.shared.core.count (Event.isCompletedOf k)) ∧
      ∀ c, (communicator cfg).Reachable c → ∀ k, c.shared.core.count (Event.isCountedOf k) <
        c.shared.core.count (Event.isCompletedOf k) + 2 ^ 31 →
          ∀ b ≤ c.shared.core.count (Event.isCountedOf k),
            ((¬ c.shared.core.complete k < c.shared.core.posted k →
                b ≤ c.shared.core.count (Event.isCompletedOf k)) ↔
              CountersInStep b (c.shared.core.count (Event.isCompletedOf k))
                (c.shared.core.count (Event.isCountedOf k))) ∧
            ((¬ c.shared.core.complete k < BitVec.ofNat 32 b →
                b ≤ c.shared.core.count (Event.isCompletedOf k)) ↔
              CountersInStep b (c.shared.core.count (Event.isCompletedOf k)) b) := by
  refine ⟨?_, fun c hc k hfew b hb => not_complete_lt_imp_le_iff hc hfew hb⟩
  intro c hc i pc rest before hget k p hwaited htarget
  have hknown : pc.Known before c.shared.core := known_of_reachable hc i _ hget pc rest rfl
  rcases WaitPc.waited_cases hwaited with ⟨sends, recvs, rfl, hkind⟩ | ⟨rfl, rfl⟩
  · rcases hkind with ⟨rfl, -⟩ | ⟨rfl, -⟩
    · exact hknown.1
    · exact hknown.2
  · exact hknown (htarget rfl)

/-! ### Runs of one thread -/

variable {ok : ℕ → Shared → List Frame × (Kind → ℕ) → Shared → List Frame × (Kind → ℕ) → Prop}
  {before' : Kind → ℕ} {x : Shared × (List Frame × (Kind → ℕ))}

/-- A thread alone takes a step of its running frame. -/
theorem alone_next
    (hrun : ((waitingCommunicator cfg).restrict ok).Alone i x (s, (f :: rest, before)))
    (h : FrameStep cfg i s f s' fs)
    (hnote : before' = noteWait s (f :: rest) s' (fs ++ rest) before)
    (hok : ok i s (f :: rest, before) s' (fs ++ rest, before')) :
    ((waitingCommunicator cfg).restrict ok).Alone i x (s', (fs ++ rest, before')) :=
  hrun.step ⟨⟨.run (.top h), hnote⟩, hok⟩

theorem waitingCommunicator_start :
    ((waitingCommunicator cfg).restrict ok).Reachable ⟨.start, [([.main], fun _ => 0)]⟩ := by
  refine .start ⟨⟨rfl, fun stack hstack => ?_⟩, fun l hl => ?_⟩
  · exact List.mem_singleton.mp hstack
  · rw [List.mem_singleton.mp hl]

/-- A send without a callback. -/
def Call.plainSend (id size : ℕ) : Call :=
  ⟨id, .send, 1#64, 5#64, size, 0, 0#64, 0#64, 0#64, false⟩

/-- A thread injects a message and waits for it. -/
theorem awaited_complete_one_send :
    ∃ (c : Config Shared (List Frame × (Kind → ℕ))) (sends recvs : BitVec 32) (before : Kind → ℕ),
      ((waitingCommunicator ⟨.other, .safe, .single, false, 64, 16⟩).restrict
          waitsInStep).Reachable c ∧
        c.threads[0]? = some ([.waiting (.msgReturn sends recvs), .main], before) ∧
          before .send = 1 ∧ 1 ≤ c.shared.core.count (Event.isCompletedOf .send) := by
  have h0 : ((waitingCommunicator ⟨.other, .safe, .single, false, 64, 16⟩).restrict
      waitsInStep).Alone 0 (.start, ([.main], fun _ => 0)) (.start, ([.main], fun _ => 0)) :=
    .refl 0 _
  -- the message is injected, and completes at once
  have h1 := alone_next h0 (.call (x := .plainSend 0 8) rfl rfl) rfl nofun
  have h2 := alone_next h1 .count rfl nofun
  have h3 := alone_next h2 (.injectAccepted 0 rfl) rfl nofun
  have h4 := alone_next h3 .injectComplete rfl nofun
  have h5 := alone_next h4 (.injectSkip rfl) rfl nofun
  have h6 := alone_next h5 .ret rfl nofun
  -- the wait reads the counters of the sends, then those of the receives
  have h7 := alone_next h6 (.waitMsg rfl) noteWait_begins.symm nofun
  have h8 := alone_next h7 .waitReadComplete noteWait_goes_on.symm
    (waitsInStep_of_le fun k => by cases k <;> decide)
  have h9 := alone_next h8 .waitReadPosted noteWait_goes_on.symm
    (waitsInStep_of_le fun k => by cases k <;> decide)
  have h10 := alone_next h9 (.waitRecvs (by decide)) noteWait_goes_on.symm
    (waitsInStep_of_le fun k => by cases k <;> decide)
  have h11 := alone_next h10 .waitReadComplete noteWait_goes_on.symm
    (waitsInStep_of_le fun k => by cases k <;> decide)
  have h12 := alone_next h11 .waitReadPosted noteWait_goes_on.symm
    (waitsInStep_of_le fun k => by cases k <;> decide)
  have h13 := alone_next h12 (.waitDone (by decide)) noteWait_goes_on.symm
    (waitsInStep_of_le fun k => by cases k <;> decide)
  have hc := waitingCommunicator_start.alone rfl h13
  exact ⟨_, _, _, _, hc, rfl, rfl, (awaited_complete _).1 _ hc 0 _ _ _ rfl .send _
    (List.mem_cons_self ..) nofun⟩

/-! ### A run past the wrap-around -/

/-- Fewer than `2 ^ 31` operations of each kind are outstanding. -/
def Core.Few (s : Core) : Prop :=
  ∀ k, s.count (Event.isCountedOf k) < s.count (Event.isCompletedOf k) + 2 ^ 31

/-- Few operations are outstanding after a step. -/
def fewOutstanding (_ : ℕ) (_ : Shared) (_ : List Frame × (Kind → ℕ)) (s' : Shared)
    (_ : List Frame × (Kind → ℕ)) : Prop := s'.core.Few

/-- `posted` sends were posted, of which `complete` are complete, and what else was posted is
complete. -/
def Core.Sent (posted complete : ℕ) (s : Core) : Prop :=
  s.count (Event.isCountedOf .send) = posted ∧ s.count (Event.isCompletedOf .send) = complete ∧
    ∀ k ≠ .send, s.count (Event.isCountedOf k) = s.count (Event.isCompletedOf k)

theorem Core.Sent.few {s : Core} {posted complete : ℕ} (h : s.Sent posted complete)
    (hfew : posted < complete + 2 ^ 31) : s.Few := by
  obtain ⟨hposted, hcomplete, hothers⟩ := h
  intro k
  by_cases hk : k = .send
  · rw [hk, hposted, hcomplete]
    exact hfew
  · rw [hothers k hk]
    omega

variable {n : ℕ}

theorem Core.Sent.countPosted {s : Core} {posted complete : ℕ} (h : s.Sent posted complete)
    (id size : ℕ) : (s.countPosted (.plainSend id size)).Sent (posted + 1) complete := by
  obtain ⟨hposted, hcomplete, hothers⟩ := h
  refine ⟨?_, ?_, fun k hk => ?_⟩
  · rw [count_countPosted, hposted]
    rfl
  · rw [count_countPosted, hcomplete]
    rfl
  · rw [count_countPosted, count_countPosted, hothers k hk]
    cases k with
    | send => exact absurd rfl hk
    | recv | read | write => rfl

theorem Core.Sent.countComplete {s : Core} {posted complete : ℕ} (h : s.Sent posted complete)
    (id size : ℕ) : (s.countComplete .send (.plainSend id size)).Sent posted (complete + 1) := by
  obtain ⟨hposted, hcomplete, hothers⟩ := h
  refine ⟨?_, ?_, fun k hk => ?_⟩
  · rw [count_countComplete, hposted]
    rfl
  · rw [count_countComplete, hcomplete]
    rfl
  · rw [count_countComplete, count_countComplete, hothers k hk]
    cases k with
    | send => exact absurd rfl hk
    | recv | read | write => rfl

/-- What else a send does is not counted. -/
theorem Core.Sent.of_count_eq {s s' : Core} {posted complete : ℕ} (h : s.Sent posted complete)
    (hcounted : ∀ k, s'.count (Event.isCountedOf k) = s.count (Event.isCountedOf k))
    (hcompleted : ∀ k, s'.count (Event.isCompletedOf k) = s.count (Event.isCompletedOf k)) :
    s'.Sent posted complete := by
  obtain ⟨hposted, hcomplete, hothers⟩ := h
  refine ⟨(hcounted _).trans hposted, (hcompleted _).trans hcomplete, fun k hk => ?_⟩
  rw [hcounted, hcompleted, hothers k hk]

theorem Core.Sent.accepted {s : Core} {posted complete : ℕ} (h : s.Sent posted complete)
    (y : Call) (request : FiRequest) : (s.record (.accepted y request)).Sent posted complete :=
  h.of_count_eq (fun _ => count_record ..) fun _ => count_record ..

theorem Core.Sent.acquired {s : Core} {posted complete : ℕ} (h : s.Sent posted complete)
    (y : Call) (a : ℕ) : (s.acquireFromPool.2.record (.acquired y a)).Sent posted complete :=
  h.of_count_eq (fun _ => (count_record ..).trans (count_acquireFromPool ..))
    fun _ => (count_record ..).trans (count_acquireFromPool ..)

/-- A thread calls `send`, which counts the message. -/
theorem alone_counted (hs : s.core.Sent n n) (size : ℕ) :
    ((waitingCommunicator cfg).restrict fewOutstanding).Alone i (s, ([.main], before))
        ({ s with core := s.core.begin.countPosted (.plainSend s.core.nextCall size) },
          ([.posting (.plainSend s.core.nextCall size)
            ((Call.plainSend s.core.nextCall size).afterCount cfg none), .main], before)) ∧
      (s.core.begin.countPosted (.plainSend s.core.nextCall size)).Sent (n + 1) n := by
  have hbegun : s.core.begin.Sent n n := hs
  have hposted := hbegun.countPosted s.core.nextCall size
  have h0 : ((waitingCommunicator cfg).restrict fewOutstanding).Alone i (s, ([.main], before))
    (s, ([.main], before)) := .refl i _
  have h1 := alone_next h0 (.call (x := .plainSend s.core.nextCall size) rfl rfl) rfl
    (hbegun.few (by omega))
  exact ⟨alone_next h1 .count rfl (hposted.few (by omega)), hposted⟩

/-- A thread injects one more message, which is complete when the call returns. -/
theorem alone_inject (hs : s.core.Sent n n) :
    ∃ s', ((waitingCommunicator cfg).restrict fewOutstanding).Alone i (s, ([.main], before))
      (s', ([.main], before)) ∧ s'.core.Sent (n + 1) (n + 1) := by
  have hinject : (Call.plainSend s.core.nextCall 0).afterCount cfg none = .execute none := by
    simp [Call.afterCount, Call.inject, Call.plainSend]
  obtain ⟨h0, hposted⟩ := @alone_counted cfg i s before n hs 0
  have haccepted := hposted.accepted (.plainSend s.core.nextCall 0)
    ((Call.plainSend s.core.nextCall 0).request none)
  have hcomplete := haccepted.countComplete s.core.nextCall 0
  rw [hinject] at h0
  have h1 := alone_next h0 (.injectAccepted 0 rfl) rfl (haccepted.few (by omega))
  have h2 := alone_next h1 .injectComplete rfl (hcomplete.few (by omega))
  have h3 := alone_next h2 (.injectSkip rfl) rfl (hcomplete.few (by omega))
  have h4 := alone_next h3 .ret rfl (hcomplete.few (by omega))
  exact ⟨_, h4, hcomplete⟩

/-- A thread injects any number of messages. -/
theorem exists_injected (cfg : Setup) (n : ℕ) :
    ∃ s, ((waitingCommunicator cfg).restrict fewOutstanding).Alone 0
      (.start, ([.main], fun _ => 0)) (s, ([.main], fun _ => 0)) ∧ s.core.Sent n n := by
  induction n with
  | zero => exact ⟨.start, .refl 0 _, rfl, rfl, fun _ _ => rfl⟩
  | succ n ih =>
    obtain ⟨s, hrun, hs⟩ := ih
    obtain ⟨s', hrun', hs'⟩ := alone_inject hs
    exact ⟨s', hrun.trans hrun', hs'⟩

/-- A thread posts a message that is too large to be injected, and that is in flight when the call
returns. -/
theorem alone_send (hs : s.core.Sent n n) :
    ∃ s', ((waitingCommunicator cfg).restrict fewOutstanding).Alone i (s, ([.main], before))
      (s', ([.main], before)) ∧ s'.core.Sent (n + 1) n := by
  have hlarge : (Call.plainSend s.core.nextCall (cfg.getTxInjectSize + 1)).afterCount cfg none =
      .acquire := by
    simp [Call.afterCount, Call.inject, Call.plainSend]
  obtain ⟨h0, hposted⟩ := @alone_counted cfg i s before n hs (cfg.getTxInjectSize + 1)
  have hacquired := hposted.acquired (.plainSend s.core.nextCall (cfg.getTxInjectSize + 1))
  rw [hlarge] at h0
  have h1 := alone_next h0 .acquire rfl ((hacquired _).few (by omega))
  have h2 := alone_next h1 .setCallback rfl ((hacquired _).few (by omega))
  have h3 := alone_next h2 (.executeAccepted 0 rfl) rfl
    (((hacquired _).accepted _ _).few (by omega))
  have h4 := alone_next h3 .ret rfl (((hacquired _).accepted _ _).few (by omega))
  exact ⟨_, h4, (hacquired _).accepted _ _⟩

/-- A thread injects `2 ^ 32 - 1` messages, posts a larger one and waits: the posted counter is `0`,
and it returns although the last message is in flight. -/
theorem awaited_in_flight :
    ∃ (c : Config Shared (List Frame × (Kind → ℕ))) (sends recvs : BitVec 32) (before : Kind → ℕ),
      ((waitingCommunicator ⟨.other, .safe, .single, false, 64, 16⟩).restrict
          fewOutstanding).Reachable c ∧
        c.threads[0]? = some ([.waiting (.msgReturn sends recvs), .main], before) ∧
          before .send = 2 ^ 32 ∧ c.shared.core.count (Event.isCompletedOf .send) = 2 ^ 32 - 1 := by
  obtain ⟨s, hrun, hs⟩ := exists_injected ⟨.other, .safe, .single, false, 64, 16⟩ (2 ^ 32 - 1)
  obtain ⟨s', hrun', hs'⟩ := alone_send hs
  have hc := waitingCommunicator_start.alone rfl (hrun.trans hrun')
  have hcounters := counters_eq (reachable_lifecycle hc.of_restrict.of_withHistory)
  have hfew : s'.core.Few := hs'.few (by decide)
  -- `2 ^ 32` sends have been posted, which the counter shows as none
  have hsends : ¬ s'.core.complete .send < s'.core.posted .send := by
    have hcomplete : s'.core.complete .send = _ := (hcounters .send).2
    have hposted : s'.core.posted .send = _ := (hcounters .send).1
    rw [hcomplete, hposted]
    apply not_ofNat_lt_ofNat
    · show s'.core.count _ / _ < s'.core.count _ / _
      rw [hs'.1, hs'.2.1]
      decide
    · show s'.core.count _ < s'.core.count _ + _
      rw [hs'.1, hs'.2.1]
      decide
  have hrecvs : ¬ s'.core.complete .recv < s'.core.posted .recv := by
    have hcomplete : s'.core.complete .recv = _ := (hcounters .recv).2
    have hposted : s'.core.posted .recv = BitVec.ofNat 32 (s'.core.count _) := (hcounters .recv).1
    rw [hcomplete, hposted, hs'.2.2 .recv (by decide)]
    exact BitVec.lt_irrefl _
  -- so that both loops of the wait end at their first test
  have h0 := alone_next (hrun.trans hrun') (.waitMsg rfl) noteWait_begins.symm hfew
  have h1 := alone_next h0 .waitReadComplete noteWait_goes_on.symm hfew
  have h2 := alone_next h1 .waitReadPosted noteWait_goes_on.symm hfew
  have h3 := alone_next h2 (.waitRecvs hsends) noteWait_goes_on.symm hfew
  have h4 := alone_next h3 .waitReadComplete noteWait_goes_on.symm hfew
  have h5 := alone_next h4 .waitReadPosted noteWait_goes_on.symm hfew
  have h6 := alone_next h5 (.waitDone hrecvs) noteWait_goes_on.symm hfew
  exact ⟨_, _, _, _, waitingCommunicator_start.alone rfl h6, rfl, hs'.1, hs'.2.1⟩

end LibFatbat
