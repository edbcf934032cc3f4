import LibFatbat.Collective.SendRecvTest
import LibFatbat.Concurrent.Progress

/-!
# The send and receive test comes to its end

A rank of the test waits for its operations, and in the destructor of the `poller_guard` for their
callbacks. A receive is matched by its tag alone, so that one posted for a peer may take the message
of another one. Still there are as many messages as receives (`unmatched_eq`), and no wait is in
vain: every run can go on until all ranks are done.

Main results:

* `sendRecvTest_canFinish`: there is no deadlock.
* `verified_of_reachable`: no callback throws, no message is truncated, and in the end every buffer
  holds what the other ranks sent, if the job is not so large that the counters wrap around.
-/

open Concurrent

namespace LibFatbat

variable {size i : ℕ} {s s' : TestNet} {l l' : TestRank} {c : Config TestNet TestRank}

/-! ### No message is missing -/

/-- A message to rank `k` for bit shift `b`. -/
def TestMessage.isFor (k b : ℕ) (m : TestMessage) : Bool := m.dst = k && m.bitshift = b

/-- The receive has not been matched. -/
def TestReceive.isUnmatched (b : ℕ) (x : TestReceive) : Bool :=
  x.bitshift = b && x.progress = .posted

/-- Each receive of rank `k` has been matched with a message that was sent to it. -/
def TestRank.Counted (k : ℕ) (s : TestNet) (l : TestRank) : Prop :=
  ∀ b < bitshifts, s.sent.countP (TestMessage.isFor k b) +
    l.receives.countP (TestReceive.isUnmatched b) =
      s.messages.countP (TestMessage.isFor k b) + l.receives.countP (fun x => x.bitshift = b)

/-- A receive that goes on is counted as before. -/
theorem TestRank.Counted.replace {k b r : ℕ} {rs rs' : List TestReceive} {p p' : RecvProgress}
    (hl : l.Counted k s) (hreceives : l.receives = rs ++ ⟨b, r, p⟩ :: rs')
    (hmatched : p ≠ .posted ∧ p' ≠ .posted) (hnet : s'.sent = s.sent ∧ s'.messages = s.messages) :
    TestRank.Counted k s' { l with receives := rs ++ ⟨b, r, p'⟩ :: rs' } := by
  intro b' hb'
  have hbefore := hl b' hb'
  rw [hreceives] at hbefore
  simp only [List.countP_append, List.countP_cons, TestReceive.isUnmatched, hmatched.1, hmatched.2,
    hnet.1, hnet.2, decide_false, Bool.and_false] at hbefore ⊢
  exact hbefore

theorem SendRecvStep.counted (h : SendRecvStep size i s l s' l') (hnet : s.Sound)
    (hlisted : l.Listed size i) (hsound : l.Sound size i s) (hl : l.Counted i s) :
    l'.Counted i s' := by
  cases h with
  | fill | own | loopEnd | fillEnd | wait | join | sendComplete | sendVerify => exact hl
  | @recv _ _ b r hpc hr hne =>
    -- one more receive, and it is not matched
    intro b' hb'
    have hbefore := hl b' hb'
    rw [List.countP_append, List.countP_append]
    by_cases hb : b = b'
    · simp only [List.countP_singleton, TestReceive.isUnmatched, hb] at hbefore ⊢
      simp only [decide_true, Bool.and_self, if_true]
      omega
    · simp only [List.countP_singleton, TestReceive.isUnmatched, hb] at hbefore ⊢
      simpa using hbefore
  | @send _ _ b r hpc =>
    -- a message to another rank
    have hne := hlisted.peer b r hpc
    intro b' hb'
    have hbefore := hl b' hb'
    simpa [TestMessage.isFor, hne] using hbefore
  | @matched mem pre post sent m _ rs rs' b r hreceives hdst htag =>
    obtain ⟨hlt, -⟩ := hnet m (by simp)
    obtain ⟨hb, -⟩ := hsound.of_mem hreceives
    obtain rfl := testTag_injective hlt hb htag
    intro b' hb'
    -- a message and an unmatched receive less, for the same bit shift
    have hbefore := hl b' hb'
    rw [hreceives] at hbefore
    simp only [List.countP_append, List.countP_cons, TestReceive.isUnmatched, TestMessage.isFor,
      hdst] at hbefore ⊢
    by_cases hsame : m.bitshift = b'
    · simp [hsame] at hbefore ⊢
      omega
    · simpa [hsame] using hbefore
  | write hreceives | recvComplete hreceives | truncate hreceives | recvVerify hreceives =>
    exact hl.replace hreceives ⟨by simp, by simp⟩ ⟨rfl, rfl⟩

/-- The messages to a rank are not touched by the others, but for those that they send. -/
theorem SendRecvStep.counted_other (h : SendRecvStep size i s l s' l') {k : ℕ} {l₂ : TestRank}
    (hne : k ≠ i) (hl : l₂.Counted k s) : l₂.Counted k s' := by
  intro b hb
  have hbefore := hl b hb
  cases h with
  | send hpc =>
    simp only [List.countP_append, List.countP_cons, List.countP_nil]
    omega
  | @matched mem pre post sent m _ rs rs' b' r hreceives hdst htag =>
    have hnot : m.isFor k b = false := by
      simp [TestMessage.isFor, hdst, hne.symm]
    simp only [List.countP_append, List.countP_cons, hnot] at hbefore ⊢
    simpa using hbefore
  | _ => exact hbefore

theorem counted_of_reachable (hc : (sendRecvTest size).Reachable c) :
    ∀ (k : ℕ) (l : TestRank), c.threads[k]? = some l → l.Counted k c.shared := by
  refine hc.forall_threads (P := fun k s l => l.Counted k s) ?_ ?_ ?_
  · rintro ⟨s, ranks⟩ ⟨hmessages, hsent, rfl⟩ k l hget b hb
    rw [List.eq_of_mem_replicate (List.mem_of_getElem? hget), hmessages, hsent]
    rfl
  · intro c i l s' l' hreach hget hl h
    obtain ⟨hnet, hranks⟩ := sound_of_reachable hreach
    exact h.counted hnet (listed_of_reachable hreach i l hget) (hranks i l hget) hl
  · intro c i k l l₂ s' l' _ _ _ hne _ hk h
    exact h.counted_other hne hk

theorem length_threads (hc : (sendRecvTest size).Reachable c) : c.threads.length = size := by
  refine hc.invariant (I := fun c => c.threads.length = size) ?_ ?_
  · rintro ⟨s, ranks⟩ ⟨-, -, rfl⟩
    exact List.length_replicate
  · rintro c _ - ih ⟨i, hget, h⟩
    exact List.length_set.trans ih

/-- The send is one to rank `k` for bit shift `b`. -/
def TestSend.isFor (k b : ℕ) (x : TestSend) : Bool := x.bitshift = b && x.peer = k

/-- The messages sent to a rank are those of the sends of all ranks. -/
theorem sent_eq_sum (hc : (sendRecvTest size).Reachable c) (k b : ℕ) :
    (c.threads.map fun l => l.sends.countP (TestSend.isFor k b)).sum =
      c.shared.sent.countP (TestMessage.isFor k b) := by
  have hsum := hc.conserved (fun _ => 0) (fun s => s.sent.countP (TestMessage.isFor k b))
    (fun l => l.sends.countP (TestSend.isFor k b)) ?_ ?_
  · simpa using hsum
  · rintro c ⟨-, hsent, hranks⟩
    simp [hsent, hranks]
  · intro c i l s' l' _ _ _ h
    generalize c.shared = s at h ⊢
    cases h with
    | @send _ _ b' r hpc =>
      have hsame : TestSend.isFor k b ⟨b', r, .posted⟩ = TestMessage.isFor k b ⟨i, r, b'⟩ :=
        Bool.and_comm ..
      simp only [List.countP_append, List.countP_cons, List.countP_nil, hsame]
      omega
    | sendComplete hsends | sendVerify hsends =>
      simp [hsends, List.countP_append, List.countP_cons, TestSend.isFor]
    | _ => simp

/-- The main function has posted all operations. -/
def SendRecvPc.isPast : SendRecvPc → Bool
  | fill _ | recv _ _ | send _ _ => false
  | wait | join | done => true

/-- A rank past its loops has sent one message to each other rank. -/
theorem TestRank.Listed.sends_eq {k b : ℕ} (hl : l.Listed size i) (hpast : l.pc.isPast)
    (hb : b < bitshifts) (hk : k < size) :
    l.sends.countP (TestSend.isFor k b) = if i = k then 0 else 1 := by
  have hkeys : l.pc.sendKeys i size = postedKeys i size bitshifts 0 := by
    cases hpc : l.pc with
    | wait | join | done => rfl
    | _ => simp [hpc, SendRecvPc.isPast] at hpast
  have hcount := countP_postedKeys i size hb (· = k)
  rw [← hkeys, ← hl.sends, List.countP_map] at hcount
  have hsame : l.sends.countP (TestSend.isFor k b) = (otherRanks i size).countP (· = k) := hcount
  rw [hsame]
  split
  · next heq =>
    refine List.countP_eq_zero.mpr fun r hr => ?_
    simp [heq ▸ (mem_otherRanks.mp hr).2]
  · next hne =>
    have hmem : k ∈ otherRanks i size := mem_otherRanks.mpr ⟨hk, fun h => hne h.symm⟩
    have hone := List.count_eq_one_of_mem (otherRanks_nodup i size) hmem
    rw [List.count_eq_countP] at hone
    simpa [beq_eq_decide] using hone

/-- And has posted one receive for each. -/
theorem TestRank.Listed.receives_eq {b : ℕ} (hl : l.Listed size i) (hpast : l.pc.isPast)
    (hb : b < bitshifts) :
    l.receives.countP (fun x => x.bitshift = b) = (otherRanks i size).length := by
  have hkeys : l.pc.receiveKeys i size = postedKeys i size bitshifts 0 := by
    cases hpc : l.pc with
    | wait | join | done => rfl
    | _ => simp [hpc, SendRecvPc.isPast] at hpast
  have hcount := countP_postedKeys i size hb fun _ => true
  rw [← hkeys, ← hl.receives, List.countP_map, List.countP_true] at hcount
  simpa [Function.comp_def] using hcount

/-- The ranks other than `k`, counted one by one. -/
theorem sum_range_ne (k size : ℕ) :
    ((List.range size).map fun i => if i = k then 0 else 1).sum = (otherRanks k size).length := by
  induction size with
  | zero => rfl
  | succ n ih =>
    rw [List.range_succ, List.map_append, List.sum_append, ih, otherRanks_succ, List.length_append]
    by_cases hn : n = k <;> simp [hn]

/-- Once the ranks are past their loops, each has as many receives without a message, for every bit
shift, as there are messages in flight that they can be matched with. So none waits in vain. -/
theorem unmatched_eq (hc : (sendRecvTest size).Reachable c) (hpast : ∀ l ∈ c.threads, l.pc.isPast)
    {k : ℕ} (hget : c.threads[k]? = some l) {b : ℕ} (hb : b < bitshifts) :
    l.receives.countP (TestReceive.isUnmatched b) =
      c.shared.messages.countP (TestMessage.isFor k b) := by
  have hl := counted_of_reachable hc k l hget
  have hreceives := (listed_of_reachable hc k l hget).receives_eq
    (hpast l (List.mem_of_getElem? hget)) hb
  have hlength := length_threads hc
  have hk : k < size := hlength ▸ (List.getElem?_eq_some_iff.mp hget).1
  -- each other rank has sent one message for the bit shift
  have hsends : (c.threads.map fun l => l.sends.countP (TestSend.isFor k b)) =
      (List.range size).map fun i => if i = k then 0 else 1 := by
    refine List.ext_getElem? fun i => ?_
    rw [List.getElem?_map, List.getElem?_map]
    cases hi : c.threads[i]? with
    | none =>
      have hout : (List.range size)[i]? = none := by
        rw [List.getElem?_eq_none_iff, List.length_range, ← hlength]
        exact List.getElem?_eq_none_iff.mp hi
      rw [hout]
      rfl
    | some l' =>
      have hlt : i < size := hlength ▸ (List.getElem?_eq_some_iff.mp hi).1
      have hcounted := (listed_of_reachable hc i l' hi).sends_eq
        (hpast l' (List.mem_of_getElem? hi)) hb hk
      rw [List.getElem?_range hlt, Option.map_some, Option.map_some, hcounted]
  -- what was sent is matched or in flight, and as much was expected
  have hsent := sent_eq_sum hc k b
  rw [hsends, sum_range_ne] at hsent
  have hmatched := hl b hb
  omega

/-! ### The work of a rank -/

/-- The steps that are left to the main function of a rank. -/
def SendRecvPc.stepsLeft (size : ℕ) : SendRecvPc → ℕ
  | fill b => (bitshifts - b) * (2 * size + 2) + 3
  | recv b r => (bitshifts - (b + 1)) * (2 * size + 2) + 2 * (size - r) + 4
  | send b r => (bitshifts - (b + 1)) * (2 * size + 2) + 2 * (size - r) + 3
  | wait => 2
  | join => 1
  | done => 0

/-- The steps until the callback of a receive has returned. -/
def TestReceive.work (x : TestReceive) : ℕ :=
  match x.progress with
  | .posted => 2 * msgSize x.bitshift + 4
  | .writing _ written => missing (msgSize x.bitshift) written + msgSize x.bitshift + 3
  | .verifying _ pc => pc.stepsLeft (msgSize x.bitshift)
  | .truncated _ => 0

/-- The steps until the callback of a send has returned. -/
def TestSend.work (x : TestSend) : ℕ :=
  match x.progress with
  | .posted => msgSize x.bitshift + 2
  | .verifying pc => pc.stepsLeft (msgSize x.bitshift)

/-- The steps until the callbacks of a rank have returned. -/
def TestRank.operationWork (l : TestRank) : ℕ :=
  (l.receives.map TestReceive.work).sum + (l.sends.map TestSend.work).sum

/-- The work that is left to a rank. A step of the main function counts for more than an operation
that it posts. -/
def TestRank.work (size : ℕ) (l : TestRank) : ℕ :=
  (2 * msgSize bitshifts + 5) * l.pc.stepsLeft size + l.operationWork

theorem TestRank.work_lt_of_stepsLeft (hsteps : l'.pc.stepsLeft size < l.pc.stepsLeft size)
    (hwork : l'.operationWork ≤ l.operationWork + (2 * msgSize bitshifts + 4)) :
    l'.work size < l.work size :=
  mul_add_lt_mul_add hsteps hwork

theorem TestRank.work_lt_of_operationWork (hpc : l'.pc = l.pc)
    (hwork : l'.operationWork < l.operationWork) : l'.work size < l.work size := by
  unfold TestRank.work
  rw [hpc]
  exact Nat.add_lt_add_left hwork _

theorem msgSize_le {b : ℕ} (hb : b < bitshifts) : msgSize b ≤ msgSize bitshifts := by
  unfold msgSize
  rw [Nat.one_shiftLeft, Nat.one_shiftLeft]
  exact Nat.pow_le_pow_right Nat.two_pos hb.le

/-! ### Steps towards the end -/

/-- A rank goes on with its main function. -/
theorem TestRank.exists_step_of_main (pc : SendRecvPc)
    (hstep : SendRecvStep size i s l s' { l with pc := pc })
    (hless : pc.stepsLeft size < l.pc.stepsLeft size) :
    ∃ s' l', SendRecvStep size i s l s' l' ∧ l'.work size < l.work size :=
  ⟨_, _, hstep, TestRank.work_lt_of_stepsLeft hless (Nat.le_add_right ..)⟩

/-- A posted receive can be matched with a message that has its tag. -/
theorem TestRank.exists_step_of_posted {x : TestReceive} (hx : x ∈ l.receives)
    (hposted : x.progress = .posted) {m : TestMessage} (hm : m ∈ s.messages)
    (hshift : m.bitshift = x.bitshift) (hdst : m.dst = i) :
    ∃ s' l', SendRecvStep size i s l s' l' ∧ l'.work size < l.work size := by
  obtain ⟨b, r, p⟩ := x
  obtain rfl : p = .posted := hposted
  obtain ⟨rs, rs', hreceives⟩ := List.append_of_mem hx
  obtain ⟨mem, messages, sent⟩ := s
  obtain ⟨pre, post, rfl⟩ := List.append_of_mem hm
  refine ⟨_, _, .matched hreceives hdst (by rw [hshift]), TestRank.work_lt_of_operationWork rfl ?_⟩
  have hle := missing_le (msgSize b) []
  simp [TestRank.operationWork, hreceives, TestReceive.work]
  omega

/-- A receive that was matched is written, and then completes. -/
theorem TestRank.Sound.exists_step_of_writing (hl : l.Sound size i s) {x : TestReceive}
    (hx : x ∈ l.receives) {m : TestMessage} {written : List ℕ}
    (hwriting : x.progress = .writing m written) :
    ∃ s' l', SendRecvStep size i s l s' l' ∧ l'.work size < l.work size := by
  obtain ⟨b, r, p⟩ := x
  obtain rfl : p = .writing m written := hwriting
  obtain ⟨rs, rs', hreceives⟩ := List.append_of_mem hx
  obtain ⟨-, hshift, -⟩ := hl.of_mem hreceives
  obtain rfl : m.bitshift = b := hshift
  by_cases hall : ∀ j < msgSize m.bitshift, j ∈ written
  · refine ⟨_, _, .recvComplete hreceives hall, TestRank.work_lt_of_operationWork rfl ?_⟩
    simp [TestRank.operationWork, hreceives, TestReceive.work, VerifyPc.stepsLeft]
    omega
  · push Not at hall
    obtain ⟨j, hj, hnew⟩ := hall
    refine ⟨_, _, .write hreceives le_rfl hj, TestRank.work_lt_of_operationWork rfl ?_⟩
    have hless := missing_cons_lt hj hnew
    simp [TestRank.operationWork, hreceives, TestReceive.work]
    omega

/-- A callback that is running comes closer to its end. -/
theorem TestRank.Sound.exists_step_of_receive (hl : l.Sound size i s) {x : TestReceive}
    (hx : x ∈ l.receives) (hrunning : x.isRunning = true) :
    ∃ s' l', SendRecvStep size i s l s' l' ∧ l'.work size < l.work size := by
  obtain ⟨b, r, p⟩ := x
  obtain ⟨rs, rs', hreceives⟩ := List.append_of_mem hx
  obtain ⟨-, hsound⟩ := hl.of_mem hreceives
  cases p with
  | verifying m pc =>
    obtain ⟨hbuffer, hvalid⟩ := hsound
    obtain ⟨pc', hverify, hless⟩ := hvalid.exists_step (of_decide_eq_true hrunning) hbuffer
    refine ⟨_, _, .recvVerify hreceives hverify, TestRank.work_lt_of_operationWork rfl ?_⟩
    simp [TestRank.operationWork, hreceives, TestReceive.work]
    omega
  | posted | writing m written | truncated m => cases hrunning

theorem TestRank.Sound.exists_step_of_send (hl : l.Sound size i s) {x : TestSend}
    (hx : x ∈ l.sends) (hrunning : x.isRunning = true) :
    ∃ s' l', SendRecvStep size i s l s' l' ∧ l'.work size < l.work size := by
  obtain ⟨hlt, hsound⟩ := hl.sends x hx
  obtain ⟨b, r, p⟩ := x
  obtain ⟨xs, xs', hsends⟩ := List.append_of_mem hx
  cases p with
  | verifying pc =>
    obtain ⟨pc', hverify, hless⟩ :=
      hsound.exists_step (of_decide_eq_true hrunning) (hl.filled b hlt)
    refine ⟨_, _, .sendVerify hsends hverify, TestRank.work_lt_of_operationWork rfl ?_⟩
    simp [TestRank.operationWork, hsends, TestSend.work]
    omega
  | posted => cases hrunning

/-- A rank that waits can go on, unless one of its receives has no message. -/
theorem TestRank.Sound.exists_step_of_wait (hl : l.Sound size i s) (hpc : l.pc = .wait)
    (hposted : ∀ x ∈ l.receives, x.progress ≠ .posted) :
    ∃ s' l', SendRecvStep size i s l s' l' ∧ l'.work size < l.work size := by
  by_cases hsends : ∀ x ∈ l.sends, x.isComplete = true
  · by_cases hrecvs : ∀ x ∈ l.receives, x.isComplete = true
    · -- the counters agree
      refine exists_step_of_main _ (.wait hpc ?_ ?_) (by simp [hpc, SendRecvPc.stepsLeft])
      · rw [List.countP_eq_length.mpr hsends]
        exact BitVec.lt_irrefl _
      · rw [List.countP_eq_length.mpr hrecvs]
        exact BitVec.lt_irrefl _
    · push Not at hrecvs
      obtain ⟨x, hx, hincomplete⟩ := hrecvs
      have hsound := (hl.receives x hx).2
      unfold TestReceive.isComplete at hincomplete
      unfold TestReceive.Sound at hsound
      cases hprogress : x.progress with
      -- ruled out by the hypothesis: its message has not been matched
      | posted => exact absurd hprogress (hposted x hx)
      | writing m written => exact hl.exists_step_of_writing hx hprogress
      | verifying m pc =>
        rw [hprogress] at hincomplete
        exact absurd rfl hincomplete
      | truncated m =>
        rw [hprogress] at hsound
        exact hsound.elim
  · push Not at hsends
    obtain ⟨⟨b, r, p⟩, hx, hincomplete⟩ := hsends
    cases p with
    | posted =>
      obtain ⟨xs, xs', hsplit⟩ := List.append_of_mem hx
      refine ⟨_, _, .sendComplete hsplit, TestRank.work_lt_of_operationWork rfl ?_⟩
      simp [TestRank.operationWork, hsplit, TestSend.work, VerifyPc.stepsLeft]
    -- a send whose buffer is verified counts as complete
    | verifying pc => exact absurd rfl hincomplete

/-- A rank whose polling threads are joined can go on. -/
theorem TestRank.Sound.exists_step_of_join (hl : l.Sound size i s) (hpc : l.pc = .join) :
    ∃ s' l', SendRecvStep size i s l s' l' ∧ l'.work size < l.work size := by
  by_cases hsends : ∀ x ∈ l.sends, x.isRunning = false
  · by_cases hrecvs : ∀ x ∈ l.receives, x.isRunning = false
    · exact exists_step_of_main _ (.join hpc hsends hrecvs) (by simp [hpc, SendRecvPc.stepsLeft])
    · push Not at hrecvs
      obtain ⟨x, hx, hrunning⟩ := hrecvs
      exact hl.exists_step_of_receive hx (eq_true_of_ne_false hrunning)
  · push Not at hsends
    obtain ⟨x, hx, hrunning⟩ := hsends
    exact hl.exists_step_of_send hx (eq_true_of_ne_false hrunning)

/-- A rank that is not done can go on, unless it waits for a message. -/
theorem TestRank.Sound.exists_step (hl : l.Sound size i s) (hdone : l.pc ≠ .done)
    (hposted : l.pc = .wait → ∀ x ∈ l.receives, x.progress ≠ .posted) :
    ∃ s' l', SendRecvStep size i s l s' l' ∧ l'.work size < l.work size := by
  have hbounds := hl.pc
  -- one step for each place; the work counts the operations that it posts
  cases hpc : l.pc with
  | fill b =>
    rw [hpc] at hbounds
    rcases Nat.eq_or_lt_of_le hbounds with rfl | hb
    · exact exists_step_of_main _ (.fillEnd hpc) (by simp [hpc, SendRecvPc.stepsLeft])
    · have hwork : bitshifts - b = bitshifts - (b + 1) + 1 := by omega
      refine exists_step_of_main _ (.fill hpc hb) ?_
      simp only [hpc, SendRecvPc.stepsLeft, hwork, Nat.succ_mul]
      omega
  | recv b r =>
    rw [hpc] at hbounds
    obtain ⟨hb, hr⟩ := hbounds
    rcases Nat.eq_or_lt_of_le hr with rfl | hr
    · refine exists_step_of_main _ (.loopEnd hpc) ?_
      simp only [hpc, SendRecvPc.stepsLeft]
      omega
    by_cases hne : r = i
    · subst hne
      refine exists_step_of_main _ (.own hpc hr) ?_
      simp only [hpc, SendRecvPc.stepsLeft]
      omega
    · refine ⟨_, _, .recv hpc hr hne, TestRank.work_lt_of_stepsLeft ?_ ?_⟩
      · simp [hpc, SendRecvPc.stepsLeft]
      · have hle := msgSize_le hb
        simp [TestRank.operationWork, TestReceive.work]
        omega
  | send b r =>
    rw [hpc] at hbounds
    obtain ⟨hb, hr⟩ := hbounds
    refine ⟨_, _, .send hpc, TestRank.work_lt_of_stepsLeft ?_ ?_⟩
    · simp only [hpc, SendRecvPc.stepsLeft]
      omega
    · have hle := msgSize_le hb
      simp [TestRank.operationWork, TestSend.work]
      omega
  | wait => exact hl.exists_step_of_wait hpc (hposted hpc)
  | join => exact hl.exists_step_of_join hpc
  | done => exact absurd hpc hdone

/-! ### No deadlock -/

/-- As long as a rank is not done, some rank can take a step towards its end. -/
theorem exists_step_of_sendRecvTest (hc : (sendRecvTest size).Reachable c)
    (hrunning : ∃ l ∈ c.threads, ¬ l.pc = .done) :
    ∃ i l s' l', c.threads[i]? = some l ∧ SendRecvStep size i c.shared l s' l' ∧
      l'.work size < l.work size := by
  obtain ⟨l, hl, hdone⟩ := hrunning
  obtain ⟨i, hget⟩ := List.getElem?_of_mem hl
  obtain ⟨-, hranks⟩ := sound_of_reachable hc
  -- a rank that is not done, and waits for no message, can go on
  have hstep {k : ℕ} {lk : TestRank} (hk : c.threads[k]? = some lk) (hdone : lk.pc ≠ .done)
      (hposted : lk.pc = .wait → ∀ x ∈ lk.receives, x.progress ≠ .posted) :
      ∃ i l s' l', c.threads[i]? = some l ∧ SendRecvStep size i c.shared l s' l' ∧
        l'.work size < l.work size := by
    obtain ⟨s', l', h⟩ := (hranks k lk hk).exists_step hdone hposted
    exact ⟨k, lk, s', l', hk, h⟩
  by_cases hposted : l.pc = .wait → ∀ x ∈ l.receives, x.progress ≠ .posted
  · exact hstep hget hdone hposted
  push Not at hposted
  obtain ⟨hpc, x, hx, hx'⟩ := hposted
  by_cases hpast : ∀ l ∈ c.threads, l.pc.isPast = true
  · -- all messages have been sent, and there is one for this receive
    have hb : x.bitshift < bitshifts :=
      ((hranks i l hget).receives x hx).1.trans_le (hranks i l hget).pc.filled_le
    have hcount := unmatched_eq hc hpast hget hb
    have hpos : 0 < l.receives.countP (TestReceive.isUnmatched x.bitshift) :=
      List.countP_pos_iff.mpr ⟨x, hx, by simp [TestReceive.isUnmatched, hx']⟩
    rw [hcount] at hpos
    obtain ⟨m, hm, hfor⟩ := List.countP_pos_iff.mp hpos
    simp only [TestMessage.isFor, Bool.and_eq_true, decide_eq_true_eq] at hfor
    obtain ⟨s', l', h⟩ : ∃ s' l', SendRecvStep size i c.shared l s' l' ∧
        l'.work size < l.work size := TestRank.exists_step_of_posted hx hx' hm hfor.2 hfor.1
    exact ⟨i, l, s', l', hget, h⟩
  · push Not at hpast
    obtain ⟨lk, hlk, hbefore⟩ := hpast
    obtain ⟨k, hk⟩ := List.getElem?_of_mem hlk
    refine hstep hk (fun heq => hbefore ?_) fun heq => absurd ?_ hbefore
    · rw [heq]
      rfl
    · rw [heq]
      rfl

/-- Every run of the send and receive test can go on until all ranks are done. -/
theorem sendRecvTest_canFinish (hc : (sendRecvTest size).Reachable c) :
    ∃ c', (sendRecvTest size).Steps c c' ∧ ∀ l ∈ c'.threads, l.pc = .done :=
  hc.exists_final (TestRank.work size) fun _ => exists_step_of_sendRecvTest

/-- Two ranks at the beginning. -/
theorem sendRecvTest_canFinish_two :
    ∃ c', (sendRecvTest 2).Steps
        ⟨⟨fun _ _ => 0#8, [], []⟩, [⟨.fill 0, [], []⟩, ⟨.fill 0, [], []⟩]⟩ c' ∧
      ∀ l ∈ c'.threads, l.pc = .done :=
  sendRecvTest_canFinish (.start ⟨rfl, rfl, rfl⟩)

/-! ### What was received -/

/-- In every interleaving of the ranks, their polling threads and the network, no message is
truncated and no callback throws, and if there are at most `2 ^ 27` ranks, one that is done has in
each receive buffer what the others sent. -/
theorem verified_of_reachable (hc : (sendRecvTest size).Reachable c) {l : TestRank}
    (hget : c.threads[i]? = some l) :
    (∀ x ∈ l.receives, ∀ m, x.progress ≠ .truncated m ∧ x.progress ≠ .verifying m .thrown) ∧
      (∀ x ∈ l.sends, x.progress ≠ .verifying .thrown) ∧
        (l.pc = .done → 2 ≤ size → size ≤ 2 ^ 27 → ∀ b < bitshifts, ∀ j < msgSize b,
          c.shared.mem (.recv i b) j = testByte b) := by
  obtain ⟨hnet, hranks⟩ := sound_of_reachable hc
  have hl := hranks i l hget
  refine ⟨fun x hx m => ?_, fun x hx hthrown => ?_, fun hdone hsize hsmall b hb => ?_⟩
  · -- `Sound` rules out a truncated receive and a check that throws
    have hsound := (hl.receives x hx).2
    unfold TestReceive.Sound at hsound
    constructor
    · intro hprogress
      rw [hprogress] at hsound
      exact hsound
    · intro hprogress
      rw [hprogress] at hsound
      exact hsound.2
  · have hsound := (hl.sends x hx).2
    unfold TestSend.Sound at hsound
    rw [hthrown] at hsound
    exact hsound
  · -- there is another rank, whose receive is complete
    obtain ⟨r, hr, hne⟩ : ∃ r < size, r ≠ i := by
      by_cases hi : i = 0
      · exact ⟨1, hsize, by omega⟩
      · exact ⟨0, by omega, fun h => hi h.symm⟩
    obtain ⟨x, hx, rfl, -⟩ := (listed_of_reachable hc i l hget).exists_receive hdone hb hr hne
    have hcomplete := hl.waited (by rw [hdone]; trivial) hsmall x hx
    have hsound := (hl.receives x hx).2
    unfold TestReceive.Sound at hsound
    unfold TestReceive.isComplete at hcomplete
    split at hcomplete
    · next hprogress =>
      rw [hprogress] at hsound
      exact hsound.1
    · cases hcomplete
    · cases hcomplete
    · cases hcomplete

/-- Two ranks that have come to their ends: rank 0 has what rank 1 sent. -/
theorem verified_of_reachable_two :
    ∃ (c : Config TestNet TestRank) (l : TestRank), (sendRecvTest 2).Reachable c ∧
      c.threads[0]? = some l ∧ l.pc = .done ∧ (∃ x ∈ l.receives, x.bitshift = 3 ∧ x.peer = 1) ∧
        (∀ x ∈ l.receives, ∀ m, x.progress ≠ .truncated m ∧ x.progress ≠ .verifying m .thrown) ∧
        ∀ b < bitshifts, ∀ j < msgSize b, c.shared.mem (.recv 0 b) j = testByte b := by
  have hstart : (sendRecvTest 2).Reachable
      ⟨⟨fun _ _ => 0#8, [], []⟩, [⟨.fill 0, [], []⟩, ⟨.fill 0, [], []⟩]⟩ := .start ⟨rfl, rfl, rfl⟩
  obtain ⟨c, hsteps, hdone⟩ :=
    hstart.exists_final (TestRank.work 2) fun _ => exists_step_of_sendRecvTest
  have hc := hstart.steps hsteps
  have hlength := length_threads hc
  obtain ⟨l, hget⟩ : ∃ l, c.threads[0]? = some l := ⟨_, List.getElem?_eq_getElem (by omega)⟩
  have hend : l.pc = .done := hdone l (List.mem_of_getElem? hget)
  obtain ⟨x, hx, hshift, hpeer⟩ := (listed_of_reachable hc 0 l hget).exists_receive hend
    (b := 3) (by decide) Nat.one_lt_two Nat.one_ne_zero
  obtain ⟨hreceives, -, hbytes⟩ := verified_of_reachable hc hget
  exact ⟨c, l, hc, hget, hend, ⟨x, hx, hshift, hpeer⟩, hreceives,
    hbytes hend le_rfl (by decide)⟩

end LibFatbat
