import LibFatbat.Bits.Counter
import LibFatbat.Communicator.Accounting
import LibFatbat.Communicator.Callbacks

/-!
# The wait loops

What a thread knows when `wait_for_msg_completions` or `wait_for_write_completions` returns. The
loops compare counters, and a poll function increments its counter before it calls the handler that
invokes the callback. So when a wait returns, no more is outstanding than was posted since it read
the counter (`outstanding_le_of_waited`), but a callback may be yet to run, or running, in another
thread, or below the wait in its own; `callbacksDone_iff` says exactly when none is.
-/

open Concurrent

namespace LibFatbat

variable {cfg : Setup} {i : ℕ} {s s' : Shared} {f : Frame} {fs : List Frame}
  {c : Config Shared (List Frame)}

/-! ### What a wait has read -/

/-- A complete counter was read that was not below `p`. -/
def Covered (s : Core) (k : Kind) (p : BitVec 32) : Prop :=
  ∃ n ≤ s.count (Event.isCompletedOf k), ¬ BitVec.ofNat 32 n < p

/-- The values that a wait has read were those of the counters. -/
def WaitPc.Read (s : Core) : WaitPc → Prop
  | .msg sends complete _ =>
    (∀ q ∈ complete, ∃ n ≤ s.count (Event.isCompletedOf (if sends.isNone then .send else .recv)),
      q = BitVec.ofNat 32 n) ∧ ∀ p ∈ sends, Covered s .send p
  | .msgReturn sends recvs => Covered s .send sends ∧ Covered s .recv recvs
  | .writes _ => True
  | .writesReturn target => Covered s .write target

def Frame.Read (s : Shared) : Frame → Prop
  | .waiting pc => pc.Read s.core
  | _ => True

/-- The kinds that a wait that is about to return has waited for, with the numbers posted. -/
def WaitPc.waited : WaitPc → List (Kind × BitVec 32)
  | .msgReturn sends recvs => [(.send, sends), (.recv, recvs)]
  | .writesReturn target => [(.write, target)]
  | _ => []

theorem WaitPc.mem_waited_msgReturn (sends recvs : BitVec 32) :
    (.send, sends) ∈ (msgReturn sends recvs).waited ∧
      (.recv, recvs) ∈ (msgReturn sends recvs).waited :=
  ⟨.head _, .tail _ (.head _)⟩

/-- A wait for messages has waited for the sends and the receives, one for writes for these. -/
theorem WaitPc.waited_cases {pc : WaitPc} {k : Kind} {p : BitVec 32} (h : (k, p) ∈ pc.waited) :
    (∃ sends recvs, pc = .msgReturn sends recvs ∧
      (k = .send ∧ p = sends ∨ k = .recv ∧ p = recvs)) ∨ pc = .writesReturn p ∧ k = .write := by
  cases pc with
  | msgReturn sends recvs =>
    simp only [waited, List.mem_cons, Prod.mk.injEq, List.not_mem_nil, or_false] at h
    exact .inl ⟨sends, recvs, rfl, h⟩
  | writesReturn target =>
    simp only [waited, List.mem_singleton, Prod.mk.injEq] at h
    obtain ⟨rfl, rfl⟩ := h
    exact .inr ⟨rfl, rfl⟩
  | msg | writes => cases h

theorem count_mono {s s' : Core} (hlog : s.log <:+ s'.log) (q : Event → Bool) :
    s.count q ≤ s'.count q := hlog.sublist.countP_le

theorem Covered.mono {s s' : Core} {k : Kind} {p : BitVec 32} (h : Covered s k p)
    (hlog : s.log <:+ s'.log) : Covered s' k p :=
  h.imp fun _ hn => ⟨hn.1.trans (count_mono hlog _), hn.2⟩

theorem Frame.Read.mono (h : f.Read s) (hlog : s.core.log <:+ s'.core.log) : f.Read s' := by
  cases f with
  | waiting pc =>
    cases pc with
    | msg sends complete posted =>
      exact ⟨fun q hq => (h.1 q hq).imp fun _ hn => ⟨hn.1.trans (count_mono hlog _), hn.2⟩,
        fun p hp => (h.2 p hp).mono hlog⟩
    | msgReturn sends recvs => exact ⟨h.1.mono hlog, h.2.mono hlog⟩
    | writes target => trivial
    | writesReturn target => exact Covered.mono h hlog
  | _ => trivial

/-- A wait goes on with the values that it has just read. -/
theorem FrameStep.read (h : FrameStep cfg i s f s' fs)
    (hcounters : ∀ k, s.core.complete k = BitVec.ofNat 32 (s.core.count (Event.isCompletedOf k)))
    (hf : f.Read s) : ∀ g ∈ fs, g.Read s' := by
  have hlog := (SharedStep.frame h).log_suffix
  cases h with
  | call | poll | waitWrites =>
    exact List.forall_mem_cons.mpr ⟨trivial, List.forall_mem_singleton.mpr (hf.mono hlog)⟩
  | waitMsg =>
    exact List.forall_mem_cons.mpr ⟨⟨by simp, by simp⟩, List.forall_mem_singleton.mpr hf⟩
  | @waitReadComplete sends posted =>
    refine List.forall_mem_singleton.mpr ⟨fun q hq => ?_, hf.2⟩
    obtain rfl := Option.mem_some_iff.mp hq
    exact ⟨_, le_rfl, hcounters _⟩
  | waitReadPosted => exact List.forall_mem_singleton.mpr hf
  | waitAgain => exact List.forall_mem_singleton.mpr ⟨by simp, by simp⟩
  | @waitRecvs complete posted hle =>
    -- the sends were found complete
    refine List.forall_mem_singleton.mpr ⟨by simp, fun p hp => ?_⟩
    obtain rfl := Option.mem_some_iff.mp hp
    obtain ⟨n, hn, rfl⟩ := hf.1 complete rfl
    exact ⟨n, hn, hle⟩
  | @waitDone sends complete posted hle =>
    obtain ⟨n, hn, rfl⟩ := hf.1 complete rfl
    exact List.forall_mem_singleton.mpr ⟨hf.2 sends rfl, n, hn, hle⟩
  | writesAgain => exact List.forall_mem_singleton.mpr trivial
  | writesDone hle =>
    -- the counter is read in this very step
    refine List.forall_mem_singleton.mpr ⟨_, le_rfl, ?_⟩
    rwa [← hcounters]
  | _ => simp [Frame.Read]

theorem read_of_reachable (hc : (communicator cfg).Reachable c) : ∀ (j : ℕ) (stack : List Frame),
    c.threads[j]? = some stack → ∀ f ∈ stack, f.Read c.shared :=
  forall_frames (P := fun s f => f.Read s) trivial
    (fun _ _ _ _ _ hc h hf => h.read (fun k => (counters_eq (reachable_lifecycle hc) k).2) hf)
    (fun _ _ _ h hg => hg.mono h.log_suffix) hc

/-- A wait that returns has found every kind it waits for complete. -/
theorem covered_of_waited (hc : (communicator cfg).Reachable c) {pc : WaitPc} {rest : List Frame}
    (hget : c.threads[i]? = some (.waiting pc :: rest)) {k : Kind} {p : BitVec 32}
    (hwaited : (k, p) ∈ pc.waited) : Covered c.shared.core k p := by
  have hread : pc.Read c.shared.core :=
    read_of_reachable hc i _ hget _ (List.mem_cons_self ..)
  rcases WaitPc.waited_cases hwaited with ⟨sends, recvs, rfl, hkind⟩ | ⟨rfl, rfl⟩
  · rcases hkind with ⟨rfl, rfl⟩ | ⟨rfl, rfl⟩
    · exact hread.1
    · exact hread.2
  · exact hread

/-- The callbacks of the operations of a kind that are counted as posted have finished. -/
def CallbacksDone (s : Core) (k : Kind) : Prop :=
  ∀ x : Call, x.kind = k → x.hasCallback → .counted x ∈ s.log → .finished x ∈ s.log

/-- The frame is about to invoke the callback of an operation of the kind, or in it. -/
def Frame.InCallback (k : Kind) (f : Frame) : Prop :=
  ∃ x : Call, x.kind = k ∧ x.hasCallback = true ∧ (f.Invokes x ∨ f.Runs x)

/-- The operations of a kind that have a callback and are outstanding. -/
def outstandingCallbacks (k : Kind) (c : Config Shared (List Frame)) : ℕ :=
  countTokens (fun t => t.isOutstanding k && t.call.hasCallback) (tokens c)

/-- A frame at a callback has the operation in its hands. -/
theorem Frame.exists_of_inCallback {k : Kind} (hf : f.InCallback k) :
    ∃ t ∈ f.tokens, t.call.kind = k ∧ t.call.hasCallback = true ∧
      (t.stage.isDue ∨ t.stage.isRunning) := by
  obtain ⟨x, hk, hcb, hinvokes | hruns⟩ := hf
  · unfold Invokes at hinvokes
    split at hinvokes
    · next y a cancelled =>
      subst hinvokes
      exact ⟨_, Multiset.mem_singleton_self _, hk, hcb, .inl (by cases cancelled <;> rfl)⟩
    · subst hinvokes
      exact ⟨_, Multiset.mem_singleton_self _, hk, hcb, .inl rfl⟩
    · cases hinvokes
  · unfold Runs at hruns
    split at hruns
    · subst hruns
      exact ⟨_, Multiset.mem_singleton_self _, hk, hcb, .inr rfl⟩
    · subst hruns
      exact ⟨_, Multiset.mem_singleton_self _, hk, hcb, .inr rfl⟩
    · cases hruns

/-- At its callback an operation is counted, and the callback has not finished. -/
theorem Stage.counted_of_atCallback {stage : Stage} (h : stage.isDue ∨ stage.isRunning) :
    stage.isCounted = true ∧ stage.isFinished = false := by
  cases stage with
  | injectReady | completed | cancelled | injectRunning | running => exact ⟨rfl, rfl⟩
  | _ => simp [isDue, isRunning] at h

/-- What is settled, and not at its callback, is past its callback. -/
theorem Stage.isFinished_of_isSettled {stage : Stage} (hsettled : stage.isSettled)
    (hdue : stage.isDue = false) (hrunning : stage.isRunning = false) :
    stage.isFinished = true := by
  have hinvoked := isInvoked_of_isSettled hsettled hdue
  cases stage with
  | injectRunning | running => cases hrunning
  | invoked | cleared | finished => rfl
  | _ => cases hinvoked

/-- Without exceptions, an operation is at its callback only in the hands of a frame that is. -/
theorem stage_of_not_inCallback (hc : (exceptionFree cfg).Reachable c) {t : Token}
    (ht : t ∈ tokens c) (hcb : t.call.hasCallback = true)
    (hframes : ∀ stack ∈ c.threads, ∀ f ∈ stack, ¬ f.InCallback t.call.kind) :
    t.stage.isDue = false ∧ t.stage.isRunning = false := by
  rcases mem_tokens ht with hmem | hmem | ⟨stack, hstack, f, hf, hmem⟩
  · obtain ⟨o, -, rfl⟩ := Multiset.mem_map.mp hmem
    exact ⟨rfl, rfl⟩
  · rw [(retired_of_exceptionFree hc t hmem).2]
    exact ⟨rfl, rfl⟩
  · have hnot := hframes stack hstack f hf
    rcases Frame.callback_cases hmem with ⟨hinvokes, -⟩ | ⟨hruns, -⟩ | hother
    · exact absurd ⟨t.call, rfl, hcb, .inl hinvokes⟩ hnot
    · exact absurd ⟨t.call, rfl, hcb, .inr hruns⟩ hnot
    · exact hother

/-- Without exceptions, the callbacks of a kind are done exactly if no frame is at the callback of
an operation of the kind, and no operation of the kind that has a callback is outstanding. -/
theorem callbacksDone_iff_of_exceptionFree (hc : (exceptionFree cfg).Reachable c) (k : Kind) :
    CallbacksDone c.shared.core k ↔
      (∀ stack ∈ c.threads, ∀ f ∈ stack, ¬ f.InCallback k) ∧ outstandingCallbacks k c = 0 := by
  have hlife := reachable_lifecycle hc.of_restrict
  constructor
  · intro hdone
    -- an operation with a callback that is counted is past its callback
    have hfinished {t : Token} (ht : t ∈ tokens c) (hk : t.call.kind = k)
        (hcb : t.call.hasCallback = true) (hcounted : t.stage.isCounted) : t.stage.isFinished :=
      (finished_mem_iff hlife ht hcb).mp
        (hdone t.call hk hcb ((counted_mem_iff hlife ht).mpr hcounted))
    constructor
    · intro stack hstack f hf hin
      obtain ⟨j, hget⟩ := List.getElem?_of_mem hstack
      obtain ⟨t, htf, hk, hcb, hstage⟩ := Frame.exists_of_inCallback hin
      obtain ⟨hcounted, hnot⟩ := Stage.counted_of_atCallback hstage
      have hpast := hfinished (mem_tokens_of_frame hget hf htf) hk hcb hcounted
      rw [hnot] at hpast
      cases hpast
    · by_contra hne
      obtain ⟨t, ht, hp⟩ := exists_of_countTokens_pos (Nat.pos_of_ne_zero hne)
      simp only [Token.isOutstanding, Bool.and_eq_true, decide_eq_true_eq] at hp
      obtain ⟨⟨hk, hcounted, hsettled⟩, hcb⟩ := hp
      have hpast := hfinished ht hk hcb hcounted
      cases h : t.stage <;> simp [h, Stage.isSettled, Stage.isFinished] at hsettled hpast
  · rintro ⟨hframes, hout⟩ x rfl hcb hcounted
    obtain ⟨t, ht, rfl, hstage⟩ := exists_of_counted hlife hcounted
    -- it is not outstanding, and no frame is at its callback, so it is past the callback
    have hsettled : t.stage.isSettled = true := by
      by_contra hsettled
      have hpos := countTokens_pos
        (p := fun u => u.isOutstanding t.call.kind && u.call.hasCallback) ht
        (by simp [Token.isOutstanding, hstage, hsettled, hcb])
      exact absurd hout (Nat.pos_iff_ne_zero.mp hpos)
    obtain ⟨hdue, hrunning⟩ := stage_of_not_inCallback hc ht hcb hframes
    exact (finished_mem_iff hlife ht hcb).mpr
      (Stage.isFinished_of_isSettled hsettled hdue hrunning)

/-- The operations that have a callback are some of those that are outstanding. -/
theorem outstandingCallbacks_le (k : Kind) (c : Config Shared (List Frame)) :
    outstandingCallbacks k c ≤ outstanding k c :=
  countTokens_mono (fun _ ht => (Bool.and_eq_true_iff.mp ht).1) _

end LibFatbat
