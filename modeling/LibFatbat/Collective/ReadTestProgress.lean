import LibFatbat.Collective.ReadTest
import LibFatbat.Concurrent.Progress

/-!
# The read test comes to its end

A rank of the read test waits for keys that its peers send, and for its own operations. Each step
that a rank takes towards its end leaves it less work (`ReadRank.work`), and as long as one is not
at its end, some rank can take one (`exists_step_of_readTest`).

Main results, for at most `2 ^ 24` ranks and remote addresses that reach the buffers:

* `readTest_canFinish`: every run can go on until all ranks are done, with all reads verified.
* `readTest_verified`: no read fails, no callback throws, and a rank that is done has read what its
  peers have.
-/

open Concurrent

namespace LibFatbat

variable {size i : ℕ} {b : DataBuffers size} {s s' : ReadNet} {l l' : ReadRank}
  {c : Config ReadNet ReadRank}

/-! ### The work of a rank -/

/-- The steps that are left to the main function of a rank. -/
def ReadPc.stepsLeft (size : ℕ) : ReadPc → ℕ
  | alloc r => (size - r) + 2 * size + readIterations * (size + 2) + 4
  | recv r => 2 * (size - r) + readIterations * (size + 2) + 3
  | send r => 2 * (size - r) + readIterations * (size + 2) + 2
  | waitKeys => readIterations * (size + 2) + 2
  | read t r => (readIterations - t) * (size + 2) + 1 - r
  | waitReads t => (readIterations - (t + 1)) * (size + 2) + 2
  | done | invalidKey => 0

/-- The steps until the completion of a receive. -/
def ReadKeyReceive.work (x : ReadKeyReceive) : ℕ :=
  match x.progress with
  | .posted => 2
  | .matched _ => 1
  | .complete => 0

/-- The steps until a read of `bytes` bytes is complete, and its callback has returned. -/
def RemoteRead.work (bytes : ℕ) (x : RemoteRead) : ℕ :=
  match x.progress with
  | .writing written => missing bytes written + bytes + 2
  | .verifying pc => pc.stepsLeft bytes
  | .failed => 0

/-- The steps until the operations of a rank are complete, and their callbacks have returned. -/
def ReadRank.operationWork (l : ReadRank) : ℕ :=
  (l.receives.map ReadKeyReceive.work).sum + (l.sendsPosted - l.sendsComplete) +
    (l.reads.map (RemoteRead.work messageSize)).sum

/-- The most work that a step of the main function leaves to an operation: that of a read. -/
def readWork (bytes : ℕ) : ℕ := 2 * bytes + 2

/-- The work that is left to a rank. A step of the main function counts for more than an operation
that it posts. -/
def ReadRank.work (size : ℕ) (l : ReadRank) : ℕ :=
  (readWork messageSize + 1) * l.pc.stepsLeft size + l.operationWork

theorem ReadRank.operationWork_append (l : ReadRank) (pc : ReadPc) (x : RemoteRead) :
    ReadRank.operationWork { l with pc := pc, reads := l.reads ++ [x] } =
      l.operationWork + x.work messageSize := by
  simp [ReadRank.operationWork, add_assoc]

theorem ReadRank.work_lt_of_stepsLeft (hsteps : l'.pc.stepsLeft size < l.pc.stepsLeft size)
    (hwork : l'.operationWork ≤ l.operationWork + readWork messageSize) :
    l'.work size < l.work size :=
  mul_add_lt_mul_add hsteps hwork

theorem ReadRank.work_lt_of_operationWork (hpc : l'.pc = l.pc)
    (hwork : l'.operationWork < l.operationWork) : l'.work size < l.work size := by
  unfold ReadRank.work
  rw [hpc]
  exact Nat.add_lt_add_left hwork _

theorem two_le_readWork (bytes : ℕ) : 2 ≤ readWork bytes := Nat.le_add_left ..

theorem RemoteRead.work_posted_le (bytes r : ℕ) (key : RmaKeyInfo) :
    RemoteRead.work bytes ⟨r, key, .writing []⟩ ≤ readWork bytes := by
  have hle := missing_le bytes []
  simp only [RemoteRead.work, readWork]
  omega

/-! ### Steps towards the end -/

/-- A rank goes on with its main function. -/
theorem ReadRank.exists_step_of_main (pc : ReadPc)
    (hstep : ReadTestStep b i s l s { l with pc := pc })
    (hless : pc.stepsLeft size < l.pc.stepsLeft size) :
    ∃ s' l', ReadTestStep b i s l s' l' ∧ l'.work size < l.work size :=
  ⟨_, _, hstep, ReadRank.work_lt_of_stepsLeft hless (Nat.le_add_right ..)⟩

/-- A receive that has been matched can complete. -/
theorem ReadRank.exists_step_of_matched {x : ReadKeyReceive} (hx : x ∈ l.receives)
    {key : RmaKeyInfo} (hmatched : x.progress = .matched key) :
    ∃ s' l', ReadTestStep b i s l s' l' ∧ l'.work size < l.work size := by
  obtain ⟨r, p⟩ := x
  obtain rfl : p = .matched key := hmatched
  obtain ⟨rs, rs', hreceives⟩ := List.append_of_mem hx
  refine ⟨_, _, .recvComplete hreceives, ReadRank.work_lt_of_operationWork rfl ?_⟩
  simp [ReadRank.operationWork, hreceives, ReadKeyReceive.work]

/-- A posted receive can be matched with a message of its peer. -/
theorem ReadRank.exists_step_of_posted {x : ReadKeyReceive} (hx : x ∈ l.receives)
    (hposted : x.progress = .posted) {m : ReadKeyMessage} (hm : m ∈ s.messages)
    (hsrc : m.src = x.peer) (hdst : m.dst = i) :
    ∃ s' l', ReadTestStep b i s l s' l' ∧ l'.work size < l.work size := by
  obtain ⟨r, p⟩ := x
  obtain rfl : p = .posted := hposted
  obtain ⟨rs, rs', hreceives⟩ := List.append_of_mem hx
  obtain ⟨mem, messages⟩ := s
  obtain ⟨pre, post, rfl⟩ := List.append_of_mem hm
  refine ⟨_, _, .matched hreceives hdst (by rw [hsrc]), ReadRank.work_lt_of_operationWork rfl ?_⟩
  simp [ReadRank.operationWork, hreceives, ReadKeyReceive.work]

/-- There is a byte at every address: the buffers that a rank has for its readers do not overlap. -/
theorem ReadNet.exists_byteAt (b : DataBuffers size) (s : ReadNet) (r : ℕ) (a : Address) :
    ∃ byte, s.ByteAt b r a byte := by
  by_cases hbuffer : ∃ k < size, ∃ j < messageSize, a = b.address r k + BitVec.ofNat 64 j
  · obtain ⟨k, hk, j, hj, rfl⟩ := hbuffer
    refine ⟨s.mem (.data r k) j, fun k' hk' j' hj' heq => ?_⟩
    obtain rfl := b.disjoint r k k' j j' hk hk' hj hj' heq
    rw [ExportedBuffers.address_add_inj hj hj' heq]
  · push Not at hbuffer
    exact ⟨0#8, fun k hk j hj heq => absurd heq (hbuffer k hk j hj)⟩

/-- A read can be written to, or complete, or be verified, until its callback has returned. -/
theorem ReadRank.Sound.exists_step_of_read (hl : l.Sound b i s) (hreached : b.Reached)
    {x : RemoteRead} (hx : x ∈ l.reads) (hrunning : x.progress ≠ .verifying .returned) :
    ∃ s' l', ReadTestStep b i s l s' l' ∧ l'.work size < l.work size := by
  obtain ⟨hkey, hprogress⟩ := hl.reads x hx
  obtain ⟨r, key, p⟩ := x
  obtain ⟨xs, xs', hreads⟩ := List.append_of_mem hx
  cases p with
  | writing written =>
    by_cases hall : ∀ j < messageSize, j ∈ written
    · refine ⟨_, _, .readComplete hreads hall, ReadRank.work_lt_of_operationWork rfl ?_⟩
      simp [ReadRank.operationWork, hreads, RemoteRead.work, VerifyPc.stepsLeft]
    · push Not at hall
      obtain ⟨j, hj, hnew⟩ := hall
      obtain rfl : key = b.keyInfo r i := hkey.1
      -- the byte that the remote address of `j` stands for
      have htarget : b.target r (b.keyInfo r i)
          (b.remoteAddr (b.keyInfo r i) 0 + BitVec.ofNat 64 j) =
            some (b.address r i + BitVec.ofNat 64 j) := by
        rw [ExportedBuffers.remoteAddr_add, ExportedBuffers.target_keyInfo hreached]
      obtain ⟨byte, hbyte⟩ := s.exists_byteAt b r (b.address r i + BitVec.ofNat 64 j)
      refine ⟨_, _, .write hreads (ExportedBuffers.permits_keyInfo hreached) hj htarget hbyte,
        ReadRank.work_lt_of_operationWork rfl ?_⟩
      have hless := missing_cons_lt hj hnew
      simp [ReadRank.operationWork, hreads, RemoteRead.work]
      omega
  | verifying pc =>
    obtain ⟨hfilled, hvalid⟩ := hprogress
    have hpc : pc ≠ .returned := fun heq => hrunning (by rw [heq])
    obtain ⟨pc', hverify, hless⟩ := hvalid.exists_step hpc hfilled
    refine ⟨_, _, .verify hreads hverify, ReadRank.work_lt_of_operationWork rfl ?_⟩
    simp [ReadRank.operationWork, hreads, RemoteRead.work]
    omega
  | failed => exact hprogress.elim

/-- A rank that is not done can go on, unless it waits for a key. -/
theorem ReadRank.Sound.exists_step (hl : l.Sound b i s) (hreached : b.Reached) (hi : i < size)
    (hsends : l.sendsComplete ≤ l.sendsPosted) (hdone : l.pc ≠ .done)
    (hposted : l.pc = .waitKeys → ∀ x ∈ l.receives, x.progress ≠ .posted) :
    ∃ s' l', ReadTestStep b i s l s' l' ∧ l'.work size < l.work size := by
  have hbounds := hl.pc
  -- one step for each place; less is left because the work counts the operations it posts
  cases hpc : l.pc with
  | alloc r =>
    rw [hpc] at hbounds
    rcases Nat.eq_or_lt_of_le hbounds with rfl | hr
    · exact exists_step_of_main _ (.allocEnd hpc) (by simp [hpc, ReadPc.stepsLeft])
    · refine ⟨_, _, .alloc hpc hr ExportedBuffers.rmaKeyInfo_handle,
        ReadRank.work_lt_of_stepsLeft ?_ (Nat.le_add_right ..)⟩
      simp [hpc, ReadPc.stepsLeft]
      omega
  | recv r =>
    rw [hpc] at hbounds
    rcases Nat.eq_or_lt_of_le hbounds with rfl | hr
    · exact exists_step_of_main _ (.exchangeEnd hpc) (by simp [hpc, ReadPc.stepsLeft])
    · by_cases hne : r = i
      · subst hne
        exact exists_step_of_main _ (.own hpc hr) (by simp [hpc, ReadPc.stepsLeft]; omega)
      · refine ⟨_, _, .recv hpc hr hne,
          ReadRank.work_lt_of_stepsLeft (by simp [hpc, ReadPc.stepsLeft]) ?_⟩
        have hle := two_le_readWork messageSize
        simp [ReadRank.operationWork, ReadKeyReceive.work]
        omega
  | send r =>
    rw [hpc] at hbounds
    obtain ⟨hr, -⟩ := hbounds
    refine ⟨_, _, .send hpc,
      ReadRank.work_lt_of_stepsLeft (by simp [hpc, ReadPc.stepsLeft]; omega) ?_⟩
    have hle := two_le_readWork messageSize
    simp [ReadRank.operationWork]
    omega
  | waitKeys =>
    -- sends first, then receives, and only then the wait returns
    by_cases hless : l.sendsComplete < l.sendsPosted
    · refine ⟨_, _, .sendComplete hless, ReadRank.work_lt_of_operationWork rfl ?_⟩
      simp [ReadRank.operationWork]
      omega
    by_cases hall : ∀ x ∈ l.receives, x.isComplete = true
    · have hcount : l.receives.countP ReadKeyReceive.isComplete = l.receives.length :=
        List.countP_eq_length.mpr hall
      have hequal : l.sendsComplete = l.sendsPosted := le_antisymm hsends (Nat.not_lt.mp hless)
      refine exists_step_of_main _ (.keysWaited hpc ?_ ?_) (by simp [hpc, ReadPc.stepsLeft])
      · rw [hequal]
        exact BitVec.lt_irrefl _
      · rw [hcount]
        exact BitVec.lt_irrefl _
    · push Not at hall
      obtain ⟨x, hx, hincomplete⟩ := hall
      cases hprogress : x.progress with
      | posted => exact absurd hprogress (hposted hpc x hx)
      | matched key => exact exists_step_of_matched hx hprogress
      | complete => exact absurd (by simp [ReadKeyReceive.isComplete, hprogress]) hincomplete
  | read t r =>
    rw [hpc] at hbounds
    obtain ⟨ht, hr, hlast⟩ := hbounds
    rcases Nat.eq_or_lt_of_le ht with rfl | ht
    · obtain rfl := hlast rfl
      exact exists_step_of_main _ (.readsEnd hpc) (by simp [hpc, ReadPc.stepsLeft])
    have hwork : readIterations - t = readIterations - (t + 1) + 1 := by omega
    rcases Nat.eq_or_lt_of_le hr with rfl | hr
    · refine exists_step_of_main _ (.readsPosted hpc ht) ?_
      simp only [hpc, ReadPc.stepsLeft, hwork, Nat.succ_mul]
      omega
    by_cases hne : r = i
    · subst hne
      refine exists_step_of_main _ (.readOwn hpc ht hr) ?_
      simp only [hpc, ReadPc.stepsLeft, hwork, Nat.succ_mul]
      omega
    · -- the key of the peer is there, since the rank has waited for it
      have hkey := hl.rmaReadKeys (by rw [hpc]; trivial)
        (by rw [hpc]; exact mem_otherRanks.mpr ⟨hr, hne⟩)
      refine ⟨_, _, .read hpc ht hr hne (by rw [hkey.1]; rfl), ReadRank.work_lt_of_stepsLeft ?_ ?_⟩
      · simp only [hpc, ReadPc.stepsLeft, hwork, Nat.succ_mul]
        omega
      · rw [operationWork_append]
        have hle := RemoteRead.work_posted_le messageSize r (l.rmaReadKeys r)
        omega
  | waitReads t =>
    by_cases hall : ∀ x ∈ l.reads, x.isComplete = true
    · have hcount : l.reads.countP RemoteRead.isComplete = l.reads.length :=
        List.countP_eq_length.mpr hall
      exact exists_step_of_main _ (.readsWaited hpc (by rw [hcount]; exact BitVec.lt_irrefl _))
        (by simp [hpc, ReadPc.stepsLeft])
    · push Not at hall
      obtain ⟨x, hx, hincomplete⟩ := hall
      refine hl.exists_step_of_read hreached hx fun hreturned => hincomplete ?_
      rw [RemoteRead.isComplete, hreturned]
  | done => exact absurd hpc hdone
  | invalidKey =>
    rw [hpc] at hbounds
    exact hbounds.elim

/-! ### The keys on their way -/

/-- The key for rank `r` is sent. -/
def ReadPc.HasSent (size r : ℕ) : ReadPc → Prop
  | alloc _ => False
  | recv r' | send r' => r < r'
  | _ => r < size

/-- The key of rank `k` was matched with a receive. -/
def ReadRank.HasReceived (k : ℕ) (l : ReadRank) : Prop :=
  ∃ x ∈ l.receives, x.peer = k ∧ x.progress ≠ .posted

/-- What a rank has sent was received, or is in flight. -/
def Delivered (size : ℕ) (c : Config ReadNet ReadRank) : Prop :=
  ∀ (k r : ℕ) (lk lr : ReadRank), k ≠ r → c.threads[k]? = some lk → c.threads[r]? = some lr →
    lk.pc.HasSent size r →
      (∃ m ∈ c.shared.messages, m.src = k ∧ m.dst = r) ∨ lr.HasReceived k

/-- A key that a rank has sent after a step was sent before, or is in flight. -/
theorem ReadTestStep.hasSent (h : ReadTestStep b i s l s' l') {r : ℕ} (hne : r ≠ i)
    (hsent : l'.pc.HasSent size r) :
    l.pc.HasSent size r ∨ ∃ m ∈ s'.messages, m.src = i ∧ m.dst = r := by
  cases h with
  | alloc hpc hr => exact hsent.elim
  | allocEnd hpc => exact absurd hsent r.not_lt_zero
  | own hpc hi | recv hpc hr hne' =>
    left
    rw [hpc]
    simp only [ReadPc.HasSent] at hsent ⊢
    omega
  | @send _ _ r' hpc =>
    rcases Nat.lt_succ_iff_lt_or_eq.mp hsent with hlt | rfl
    · left
      rw [hpc]
      exact hlt
    · exact .inr ⟨_, List.mem_append_right _ (List.mem_singleton_self _), rfl, rfl⟩
  | exchangeEnd hpc | keysWaited hpc | readOwn hpc | invalid hpc | read hpc | readsPosted hpc
  | readsWaited hpc | readsEnd hpc =>
    left
    rw [hpc]
    exact hsent
  | sendComplete | matched | recvComplete | write | fail | readComplete | verify =>
    exact .inl hsent

/-- A receive that goes on has been matched. -/
theorem hasReceived_replace {rs rs' : List ReadKeyReceive} {k r : ℕ} {p p' : KeyProgress}
    (h : ∃ x ∈ rs ++ ⟨r, p⟩ :: rs', x.peer = k ∧ x.progress ≠ .posted) (hp : p' ≠ .posted) :
    ∃ x ∈ rs ++ ⟨r, p'⟩ :: rs', x.peer = k ∧ x.progress ≠ .posted := by
  obtain ⟨x, hx, hpeer, hprogress⟩ := h
  rcases List.mem_append.mp hx with hx | hx
  · exact ⟨x, List.mem_append_left _ hx, hpeer, hprogress⟩
  rcases List.mem_cons.mp hx with rfl | hx
  · exact ⟨⟨r, p'⟩, by simp, hpeer, hp⟩
  · exact ⟨x, List.mem_append_right _ (List.mem_cons_of_mem _ hx), hpeer, hprogress⟩

/-- What was received stays so. -/
theorem ReadTestStep.hasReceived (h : ReadTestStep b i s l s' l') {k : ℕ}
    (hreceived : l.HasReceived k) : l'.HasReceived k := by
  unfold ReadRank.HasReceived at hreceived ⊢
  cases h with
  | recv hpc hr hne =>
    obtain ⟨x, hx, hpeer, hprogress⟩ := hreceived
    exact ⟨x, List.mem_append_left _ hx, hpeer, hprogress⟩
  | matched hreceives hdst htag =>
    rw [hreceives] at hreceived
    exact hasReceived_replace hreceived (by simp)
  | recvComplete hreceives =>
    rw [hreceives] at hreceived
    exact hasReceived_replace hreceived (by simp)
  | _ => exact hreceived

/-- What is in flight stays so, or is received by the rank that it was sent to. -/
theorem ReadTestStep.inFlight (h : ReadTestStep b i s l s' l') (hsize : size ≤ 2 ^ 24)
    (hnet : s.Sound b) (hl : l.Sound b i s) {m : ReadKeyMessage} (hm : m ∈ s.messages) :
    m ∈ s'.messages ∨ m.dst = i ∧ l'.HasReceived m.src := by
  cases h with
  | send hpc => exact .inl (List.mem_append_left _ hm)
  | @matched mem pre post m' _ rs rs' r hreceives hdst htag =>
    rcases List.mem_append.mp hm with hm | hm
    · exact .inl (List.mem_append_left _ hm)
    rcases List.mem_cons.mp hm with rfl | hm
    · -- it is this one, and by its tag the one for this peer
      have hr : r < size := hl.peer_lt (x := ⟨r, .posted⟩) (by simp [hreceives])
      have hpeer : m.src = r := eq_of_exchange_tag hsize (hnet m (by simp)).1 hr htag
      exact .inr ⟨hdst, ⟨r, .matched m.key⟩, by simp, hpeer.symm, by simp⟩
    · exact .inl (List.mem_append_right _ hm)
  | _ => exact .inl hm

theorem delivered_of_readTest (hsize : size ≤ 2 ^ 24) (hreached : b.Reached)
    (hc : (readTest b).Reachable c) : Delivered size c := by
  refine hc.invariant (I := Delivered size) ?_ ?_
  · -- no rank has sent before the first step
    rintro c ⟨-, -, hranks⟩ k r lk lr - hk - hsent
    rw [(hranks lk (List.mem_of_getElem? hk)).1] at hsent
    exact hsent.elim
  · rintro c _ hc ih ⟨i, hget, h⟩ k r lk lr hne hk hr hsent
    obtain ⟨-, hnet, hranks⟩ := sound_of_readTest hsize hreached hc
    have hflight (m : ReadKeyMessage) := h.inFlight hsize hnet (hranks i _ hget) (m := m)
    rcases ThreadSystem.getElem?_set_cases hk with ⟨rfl, rfl⟩ | ⟨-, hbefore⟩
    · -- the sender has taken the step
      rcases ThreadSystem.getElem?_set_cases hr with ⟨rfl, -⟩ | ⟨hri, hr⟩
      · exact absurd rfl hne
      rcases h.hasSent hri hsent with hsent | hnew
      · rcases ih k r _ lr hne hget hr hsent with ⟨m, hm, hsrc, hdst⟩ | hreceived
        · rcases hflight m hm with hm | ⟨hown, -⟩
          · exact .inl ⟨m, hm, hsrc, hdst⟩
          · exact absurd (hdst.symm.trans hown) hri
        · exact .inr hreceived
      · exact .inl hnew
    · rcases ThreadSystem.getElem?_set_cases hr with ⟨rfl, rfl⟩ | ⟨hri, hr⟩
      · -- the receiver has
        rcases ih k r lk _ hne hbefore hget hsent with ⟨m, hm, rfl, hdst⟩ | hreceived
        · rcases hflight m hm with hm | ⟨-, hreceived⟩
          · exact .inl ⟨m, hm, rfl, hdst⟩
          · exact .inr hreceived
        · exact .inr (h.hasReceived hreceived)
      · -- neither has: what is on its way to the receiver stays so
        rcases ih k r lk lr hne hbefore hr hsent with ⟨m, hm, hsrc, hdst⟩ | hreceived
        · rcases hflight m hm with hm | ⟨hown, -⟩
          · exact .inl ⟨m, hm, hsrc, hdst⟩
          · exact absurd (hdst.symm.trans hown) hri
        · exact .inr hreceived

/-- No more sends complete than are posted. -/
theorem sendsComplete_le (hc : (readTest b).Reachable c) :
    ∀ l ∈ c.threads, l.sendsComplete ≤ l.sendsPosted := by
  have hall : ∀ (i : ℕ) (l : ReadRank), c.threads[i]? = some l →
      l.sendsComplete ≤ l.sendsPosted := by
    refine hc.forall_threads (P := fun _ _ l => l.sendsComplete ≤ l.sendsPosted) ?_ ?_ ?_
    · rintro c ⟨-, -, hranks⟩ i l hget
      obtain ⟨-, -, hposted, hcomplete, -⟩ := hranks l (List.mem_of_getElem? hget)
      omega
    · intro c i l s' l' _ _ hle h
      generalize c.shared = s at h
      cases h with
      | send hpc => exact Nat.le_succ_of_le hle
      | sendComplete hposted => exact hposted
      | _ => exact hle
    · exact fun _ _ _ _ _ _ _ _ _ _ _ _ hle _ => hle
  intro l hl
  obtain ⟨i, hget⟩ := List.getElem?_of_mem hl
  exact hall i l hget

/-! ### No deadlock -/

/-- A rank is done, and all its reads are verified. -/
def ReadRank.Finished (l : ReadRank) : Prop :=
  l.pc = .done ∧ ∀ x ∈ l.reads, x.progress = .verifying .returned

/-- As long as a rank is not at its end, some rank can take a step towards it. -/
theorem exists_step_of_readTest (hsize : size ≤ 2 ^ 24) (hreached : b.Reached)
    (hc : (readTest b).Reachable c) (hrunning : ∃ l ∈ c.threads, ¬ l.Finished) :
    ∃ i l s' l', c.threads[i]? = some l ∧ ReadTestStep b i c.shared l s' l' ∧
      l'.work size < l.work size := by
  obtain ⟨l, hl, hfinished⟩ := hrunning
  obtain ⟨i, hget⟩ := List.getElem?_of_mem hl
  obtain ⟨hlength, -, hranks⟩ := sound_of_readTest hsize hreached hc
  have hl := hranks i l hget
  by_cases hdone : l.pc = .done
  · -- a callback is still to return
    obtain ⟨x, hx, hverifying⟩ : ∃ x ∈ l.reads, x.progress ≠ .verifying .returned := by
      by_contra hall
      push Not at hall
      exact hfinished ⟨hdone, hall⟩
    obtain ⟨s', l', h⟩ := hl.exists_step_of_read hreached hx hverifying
    exact ⟨i, l, s', l', hget, h⟩
  -- a rank that is not done, and waits for no key, can go on
  have hstep {k : ℕ} {lk : ReadRank} (hk : c.threads[k]? = some lk) (hdone : lk.pc ≠ .done)
      (hposted : lk.pc = .waitKeys → ∀ x ∈ lk.receives, x.progress ≠ .posted) :
      ∃ i l s' l', c.threads[i]? = some l ∧ ReadTestStep b i c.shared l s' l' ∧
        l'.work size < l.work size := by
    have hlt : k < size := by
      rw [← hlength]
      exact (List.getElem?_eq_some_iff.mp hk).1
    obtain ⟨s', l', h⟩ := (hranks k lk hk).exists_step hreached hlt
      (sendsComplete_le hc lk (List.mem_of_getElem? hk)) hdone hposted
    exact ⟨k, lk, s', l', hk, h⟩
  by_cases hposted : l.pc = .waitKeys → ∀ x ∈ l.receives, x.progress ≠ .posted
  · exact hstep hget hdone hposted
  push Not at hposted
  obtain ⟨hpc, x, hx, hx'⟩ := hposted
  -- the peer that it waits for
  have hpeers := hl.receivePeers
  rw [hpc] at hpeers
  have hmem : x.peer ∈ otherRanks i size := by
    have hmem := List.mem_map_of_mem (f := ReadKeyReceive.peer) hx
    rwa [hpeers] at hmem
  obtain ⟨hr, hne⟩ := mem_otherRanks.mp hmem
  obtain ⟨lr, hr⟩ : ∃ lr, c.threads[x.peer]? = some lr :=
    ⟨_, List.getElem?_eq_getElem (hr.trans_eq hlength.symm)⟩
  have hi : i < size := by
    rw [← hlength]
    exact (List.getElem?_eq_some_iff.mp hget).1
  by_cases hsent : lr.pc.HasSent size i
  · rcases delivered_of_readTest hsize hreached hc x.peer i lr l hne hr hget hsent with
      ⟨m, hm, hsrc, hdst⟩ | ⟨y, hy, hsame, hmatched⟩
    · obtain ⟨s', l', h⟩ : ∃ s' l', ReadTestStep b i c.shared l s' l' ∧
          l'.work size < l.work size := ReadRank.exists_step_of_posted hx hx' hm hsrc hdst
      exact ⟨i, l, s', l', hget, h⟩
    · -- there is but one receive for it
      have hnodup : (l.receives.map ReadKeyReceive.peer).Nodup := by
        rw [hpeers]
        exact otherRanks_nodup i size
      rw [List.inj_on_of_nodup_map hnodup hy hx hsame] at hmatched
      exact absurd hx' hmatched
  · -- it has not come to send the key
    refine hstep hr (fun heq => hsent ?_) fun heq => absurd ?_ hsent
    · rw [heq]
      exact hi
    · rw [heq]
      exact hi

/-- With remote addresses that are virtual ones, or buffers that begin where their segments do,
every run of the read test can go on until all ranks are done and all reads are verified. -/
theorem readTest_canFinish (hsize : size ≤ 2 ^ 24)
    (hreached : b.attr.mrMode &&& fiMrVirtAddr ≠ 0#32 ∨ ∀ r k, b.offset r k = 0#64)
    (hc : (readTest b).Reachable c) :
    ∃ c', (readTest b).Steps c c' ∧ ∀ l ∈ c'.threads,
      l.pc = .done ∧ ∀ x ∈ l.reads, x.progress = .verifying .returned :=
  hc.exists_final (ReadRank.work size) fun _ => exists_step_of_readTest hsize hreached

/-- The offset of the buffer for rank `k` in a segment for two. -/
def pairOffset (k : ℕ) : BitVec 64 := if k = 1 then 0x1000000 else 0

theorem pairOffset_add_le (k : ℕ) : (pairOffset k).toNat + messageSize ≤ 0x2000000 := by
  unfold pairOffset messageSize
  split <;> simp

theorem pairOffset_disjoint {k k' j j' : ℕ} (hk : k < 2) (hk' : k' < 2) (hj : j < messageSize)
    (hj' : j' < messageSize) (h : 0x10000000#64 + pairOffset k + BitVec.ofNat 64 j =
      0x10000000#64 + pairOffset k' + BitVec.ofNat 64 j') : k = k' := by
  have hsame := congrArg BitVec.toNat h
  unfold messageSize at hj hj'
  interval_cases k <;> interval_cases k' <;> simp [pairOffset] at hsame ⊢ <;> omega

/-- The buffers of two ranks: each has a segment of two buffers, and addresses are virtual ones. -/
def pairBuffers : DataBuffers 2 where
  attr := ⟨fiMrVirtAddr⟩
  segment _ _ := .ofRegistration regattrSeven 0x10000000 0x2000000
  mr _ _ := regattrSeven 0x10000000 0x2000000
  offset _ k := pairOffset k
  mrs _ key := if key = 7 then some (regattrSeven 0x10000000 0x2000000) else none
  registered _ _ := MemorySegment.registered_ofRegistration 0x10000000 0x2000000 rfl
  mrs_key _ _ := if_pos rfl
  inside _ k := pairOffset_add_le k
  disjoint _ _ _ _ _ hk hk' hj hj' h := pairOffset_disjoint hk hk' hj hj' h

theorem readTest_pairBuffers_start : (readTest pairBuffers).Reachable
    ⟨⟨fun _ _ => 0#8, []⟩, List.replicate 2 ReadRank.start⟩ :=
  .start ⟨rfl, rfl, by simp [ReadRank.start]⟩

/-- Two ranks at the beginning. -/
theorem readTest_canFinish_two :
    ∃ c', (readTest pairBuffers).Steps ⟨⟨fun _ _ => 0#8, []⟩, List.replicate 2 ReadRank.start⟩ c' ∧
      ∀ l ∈ c'.threads, l.pc = .done ∧ ∀ x ∈ l.reads, x.progress = .verifying .returned :=
  readTest_canFinish (by decide) (.inl (by decide)) readTest_pairBuffers_start

/-! ### What was read -/

/-- A rank that is done has read from each peer. -/
theorem ReadRank.Sound.exists_read (hl : l.Sound b i s) (hpc : l.pc = .done) {r : ℕ}
    (hr : r < size) (hne : r ≠ i) : ∃ x ∈ l.reads, x.peer = r := by
  have hpeer : r ∈ l.reads.map RemoteRead.peer := by
    rw [hl.readPeers, hpc, ReadPc.readPeers, List.mem_flatten]
    exact ⟨_, List.mem_replicate.mpr ⟨by decide, rfl⟩, mem_otherRanks.mpr ⟨hr, hne⟩⟩
  exact List.mem_map.mp hpeer

/-- In every interleaving of the ranks, their polling threads and the network, with remote addresses
that are virtual ones or buffers that begin where their segments do: no rank finds a key of another
length, no read fails, no callback throws, although it may run while the next read is written into
its buffer, and a rank that is done has read from each peer what that peer has. -/
theorem readTest_verified (hsize : size ≤ 2 ^ 24)
    (hreached : b.attr.mrMode &&& fiMrVirtAddr ≠ 0#32 ∨ ∀ r k, b.offset r k = 0#64)
    (hc : (readTest b).Reachable c) (hget : c.threads[i]? = some l) :
    l.pc ≠ .invalidKey ∧ (∀ x ∈ l.reads, x.progress ≠ .failed ∧ x.progress ≠ .verifying .thrown) ∧
      (l.pc = .done → ∀ r < size, r ≠ i →
        c.shared.mem.Filled (.read i r) messageSize (rankByte r)) := by
  obtain ⟨-, -, hranks⟩ := sound_of_readTest hsize hreached hc
  have hl := hranks i l hget
  refine ⟨fun hpc => ?_, fun x hx => ?_, fun hpc r hr hne => ?_⟩
  · -- no step of a sound rank leads to a key that is not valid
    have hbounds := hl.pc
    rw [hpc] at hbounds
    exact hbounds
  · obtain ⟨-, hprogress⟩ := hl.reads x hx
    constructor
    · intro hfailed
      rw [hfailed] at hprogress
      exact hprogress
    · intro hthrown
      rw [hthrown] at hprogress
      exact hprogress.2
  · -- the last read from `r` is complete
    obtain ⟨x, hx, rfl⟩ := hl.exists_read hpc hr hne
    have hcomplete := hl.hasWaited (by rw [hpc]; trivial) x hx
    obtain ⟨-, hprogress⟩ := hl.reads x hx
    unfold RemoteRead.isComplete at hcomplete
    split at hcomplete
    · next pc hverifying =>
      rw [hverifying] at hprogress
      exact hprogress.1
    · cases hcomplete
    · cases hcomplete

/-- Two ranks that have come to their ends: rank 0 has verified what it has read from rank 1. -/
theorem readTest_verified_two :
    ∃ (c : Config ReadNet ReadRank) (l : ReadRank), (readTest pairBuffers).Reachable c ∧
      c.threads[0]? = some l ∧ l.pc = .done ∧
        (∃ x ∈ l.reads, x.peer = 1 ∧ x.progress = .verifying .returned) ∧
        c.shared.mem.Filled (.read 0 1) messageSize (rankByte 1) := by
  have hreached : pairBuffers.Reached := .inl (by decide)
  obtain ⟨c, hsteps, hfinished⟩ := readTest_pairBuffers_start.exists_final (ReadRank.work 2)
    fun _ => exists_step_of_readTest (by decide) hreached
  have hc := readTest_pairBuffers_start.steps hsteps
  obtain ⟨hlength, -, hranks⟩ := sound_of_readTest (by decide) hreached hc
  obtain ⟨l, hget⟩ : ∃ l, c.threads[0]? = some l := ⟨_, List.getElem?_eq_getElem (by omega)⟩
  obtain ⟨hdone, hreturned⟩ := hfinished l (List.mem_of_getElem? hget)
  obtain ⟨x, hx, hpeer⟩ := (hranks 0 l hget).exists_read hdone Nat.one_lt_two Nat.one_ne_zero
  obtain ⟨-, -, hfilled⟩ := readTest_verified (by decide) hreached hc hget
  exact ⟨c, l, hc, hget, hdone, ⟨x, hx, hpeer, hreturned x hx⟩,
    hfilled hdone 1 Nat.one_lt_two Nat.one_ne_zero⟩

end LibFatbat
