import LibFatbat.Bits.Counter
import LibFatbat.Collective.KeyExchange
import LibFatbat.Collective.Buffers

/-!
# The send and receive test

The main function of `send-recv-test.cxx`, run by every rank of a job of any size. For each of 20
bit shifts a rank fills a send buffer with the tag and a receive buffer with `0xff`, and then posts
a receive for every other rank, all into the one receive buffer, and a send to it. The callback of
every operation verifies its buffer, in a polling thread, while further messages may be written
into it.

What the ranks share is the memory, with the messages in flight. A receive is matched by its tag
alone, with any such message; the bytes of a message are read from the buffer of its sender and
written in any order. A message that is longer than the receive is truncated, which is an error.

`sound_of_reachable`: in every run the messages in flight are those of filled buffers, and what is
written of a receive is what was sent.
-/

open Concurrent

namespace LibFatbat

/-- The bound of the loop over `bitshift`. -/
def bitshifts : ℕ := 20

/-- `msg_size`. -/
def msgSize (bitshift : ℕ) : ℕ := 1 <<< bitshift

/-- `static_cast<uint8_t>(tag)`. -/
def testByte (bitshift : ℕ) : BitVec 8 := BitVec.ofNat 8 bitshift

/-- The tag that libfabric is given. -/
def testTag (bitshift : ℕ) : BitVec 64 := makeTag64 (BitVec.ofNat 64 bitshift) 0#64

/-- The buffers of a rank for a bit shift. -/
inductive TestBuffer
  | send (rank bitshift : ℕ)
  | recv (rank bitshift : ℕ)
  deriving DecidableEq

/-- A message: what rank `src` sends to rank `dst` for a bit shift. -/
structure TestMessage where
  src : ℕ
  dst : ℕ
  bitshift : ℕ
  deriving DecidableEq

/-- Where a receive is. -/
inductive RecvProgress
  | posted
  /-- Matched with a message, of which some bytes are written. -/
  | writing (m : TestMessage) (written : List ℕ)
  /-- Complete, and its callback called. -/
  | verifying (m : TestMessage) (pc : VerifyPc)
  | truncated (m : TestMessage)
  deriving DecidableEq

/-- Where a send is. -/
inductive SendProgress
  | posted
  | verifying (pc : VerifyPc)
  deriving DecidableEq

/-- A receive that a rank has posted for `peer`. -/
structure TestReceive where
  bitshift : ℕ
  peer : ℕ
  progress : RecvProgress
  deriving DecidableEq

/-- A send that a rank has posted to `peer`. -/
structure TestSend where
  bitshift : ℕ
  peer : ℕ
  progress : SendProgress
  deriving DecidableEq

/-- Where the main function of a rank is. -/
inductive SendRecvPc
  /-- At the allocation and filling of the buffers. -/
  | fill (bitshift : ℕ)
  /-- In the loop over the ranks, at the receive. -/
  | recv (bitshift r : ℕ)
  | send (bitshift r : ℕ)
  /-- In the loop that waits for the counters. -/
  | wait
  /-- In the destructor of the `poller_guard`. -/
  | join
  | done

/-- A rank: its main function and its operations. -/
structure TestRank where
  pc : SendRecvPc
  receives : List TestReceive
  sends : List TestSend

/-- The memory of the ranks and the messages in flight. -/
structure TestNet where
  mem : Buffers TestBuffer (BitVec 8)
  messages : List TestMessage
  /-- All messages sent; nothing in the program is like it. -/
  sent : List TestMessage

/-- The completion of a receive is counted. -/
def TestReceive.isComplete (x : TestReceive) : Bool :=
  match x.progress with
  | .verifying _ _ => true
  | .posted | .writing _ _ | .truncated _ => false

def TestSend.isComplete (x : TestSend) : Bool :=
  match x.progress with
  | .verifying _ => true
  | .posted => false

/-- The callback of a receive is running. -/
def TestReceive.isRunning (x : TestReceive) : Bool :=
  match x.progress with
  | .verifying _ pc => pc ≠ .returned
  | .posted | .writing _ _ | .truncated _ => false

def TestSend.isRunning (x : TestSend) : Bool :=
  match x.progress with
  | .verifying pc => pc ≠ .returned
  | .posted => false

/-- The steps of rank `i` of `size`: of its main function, of the network, and of its callbacks. -/
inductive SendRecvStep (size i : ℕ) : TestNet → TestRank → TestNet → TestRank → Prop
  -- The loop over the bit shifts, and the one over the ranks.
  | fill {s : TestNet} {l : TestRank} {b : ℕ} (hpc : l.pc = .fill b) (hb : b < bitshifts) :
      SendRecvStep size i s l
        { s with mem := (s.mem.fill (.send i b) (msgSize b) (testByte b)).fill (.recv i b)
                          (msgSize b) 0xff#8 }
        { l with pc := .recv b 0 }
  | own {s : TestNet} {l : TestRank} {b : ℕ} (hpc : l.pc = .recv b i) (hi : i < size) :
      SendRecvStep size i s l s { l with pc := .recv b (i + 1) }
  | recv {s : TestNet} {l : TestRank} {b r : ℕ} (hpc : l.pc = .recv b r) (hr : r < size)
      (hne : r ≠ i) :
      SendRecvStep size i s l s
        { l with pc := .send b r, receives := l.receives ++ [⟨b, r, .posted⟩] }
  | send {s : TestNet} {l : TestRank} {b r : ℕ} (hpc : l.pc = .send b r) :
      SendRecvStep size i s l
        { s with messages := s.messages ++ [⟨i, r, b⟩], sent := ⟨i, r, b⟩ :: s.sent }
        { l with pc := .recv b (r + 1), sends := l.sends ++ [⟨b, r, .posted⟩] }
  | loopEnd {s : TestNet} {l : TestRank} {b : ℕ} (hpc : l.pc = .recv b size) :
      SendRecvStep size i s l s { l with pc := .fill (b + 1) }
  | fillEnd {s : TestNet} {l : TestRank} (hpc : l.pc = .fill bitshifts) :
      SendRecvStep size i s l s { l with pc := .wait }
  | wait {s : TestNet} {l : TestRank} (hpc : l.pc = .wait)
      (hsends : ¬ BitVec.ofNat 32 (l.sends.countP TestSend.isComplete) <
        BitVec.ofNat 32 l.sends.length)
      (hrecvs : ¬ BitVec.ofNat 32 (l.receives.countP TestReceive.isComplete) <
        BitVec.ofNat 32 l.receives.length) :
      SendRecvStep size i s l s { l with pc := .join }
  -- The polling threads are joined when they are in no callback.
  | join {s : TestNet} {l : TestRank} (hpc : l.pc = .join)
      (hsends : ∀ x ∈ l.sends, x.isRunning = false)
      (hrecvs : ∀ x ∈ l.receives, x.isRunning = false) :
      SendRecvStep size i s l s { l with pc := .done }
  -- The network.
  | matched {mem : Buffers TestBuffer (BitVec 8)} {pre post sent : List TestMessage}
      {m : TestMessage} {l : TestRank} {rs rs' : List TestReceive} {b r : ℕ}
      (hreceives : l.receives = rs ++ ⟨b, r, .posted⟩ :: rs') (hdst : m.dst = i)
      (htag : testTag m.bitshift = testTag b) :
      SendRecvStep size i ⟨mem, pre ++ m :: post, sent⟩ l ⟨mem, pre ++ post, sent⟩
        { l with receives := rs ++ ⟨b, r, .writing m []⟩ :: rs' }
  | write {s : TestNet} {l : TestRank} {rs rs' : List TestReceive} {b r j : ℕ} {m : TestMessage}
      {written : List ℕ} (hreceives : l.receives = rs ++ ⟨b, r, .writing m written⟩ :: rs')
      (hfits : msgSize m.bitshift ≤ msgSize b) (hj : j < msgSize m.bitshift) :
      SendRecvStep size i s l
        { s with mem := s.mem.write (.recv i b) j (s.mem (.send m.src m.bitshift) j) }
        { l with receives := rs ++ ⟨b, r, .writing m (j :: written)⟩ :: rs' }
  | truncate {s : TestNet} {l : TestRank} {rs rs' : List TestReceive} {b r : ℕ} {m : TestMessage}
      {written : List ℕ} (hreceives : l.receives = rs ++ ⟨b, r, .writing m written⟩ :: rs')
      (hlong : msgSize b < msgSize m.bitshift) :
      SendRecvStep size i s l s
        { l with receives := rs ++ ⟨b, r, .truncated m⟩ :: rs' }
  | recvComplete {s : TestNet} {l : TestRank} {rs rs' : List TestReceive} {b r : ℕ}
      {m : TestMessage} {written : List ℕ}
      (hreceives : l.receives = rs ++ ⟨b, r, .writing m written⟩ :: rs')
      (hall : ∀ j < msgSize m.bitshift, j ∈ written) :
      SendRecvStep size i s l s
        { l with receives := rs ++ ⟨b, r, .verifying m (.index 0)⟩ :: rs' }
  | sendComplete {s : TestNet} {l : TestRank} {xs xs' : List TestSend} {b r : ℕ}
      (hsends : l.sends = xs ++ ⟨b, r, .posted⟩ :: xs') :
      SendRecvStep size i s l s
        { l with sends := xs ++ ⟨b, r, .verifying (.index 0)⟩ :: xs' }
  -- The callbacks.
  | recvVerify {s : TestNet} {l : TestRank} {rs rs' : List TestReceive} {b r : ℕ}
      {m : TestMessage} {pc pc' : VerifyPc}
      (hreceives : l.receives = rs ++ ⟨b, r, .verifying m pc⟩ :: rs')
      (h : VerifyStep s.mem (.recv i b) (msgSize b) (testByte b) pc pc') :
      SendRecvStep size i s l s
        { l with receives := rs ++ ⟨b, r, .verifying m pc'⟩ :: rs' }
  | sendVerify {s : TestNet} {l : TestRank} {xs xs' : List TestSend} {b r : ℕ} {pc pc' : VerifyPc}
      (hsends : l.sends = xs ++ ⟨b, r, .verifying pc⟩ :: xs')
      (h : VerifyStep s.mem (.send i b) (msgSize b) (testByte b) pc pc') :
      SendRecvStep size i s l s
        { l with sends := xs ++ ⟨b, r, .verifying pc'⟩ :: xs' }

/-- The ranks of a job of the given size, with any memory at first. -/
def sendRecvTest (size : ℕ) : ThreadSystem TestNet TestRank where
  init c := c.shared.messages = [] ∧ c.shared.sent = [] ∧
    c.threads = List.replicate size ⟨.fill 0, [], []⟩
  step := SendRecvStep size

/-- A tag determines the bit shift. -/
theorem testTag_injective {b b' : ℕ} (hb : b < bitshifts) (hb' : b' < bitshifts)
    (h : testTag b = testTag b') : b = b' := by
  have hnat := congrArg BitVec.toNat h
  rw [testTag, testTag, makeTag64_toNat, makeTag64_toNat] at hnat
  unfold bitshifts at hb hb'
  omega

variable {size i : ℕ} {s s' : TestNet} {l l' : TestRank}
  {c : Config TestNet TestRank}

/-! ### What a rank has posted -/

/-- The bit shifts and peers of the operations that rank `i` has posted when it comes to rank `r` in
its loop for bit shift `b`, in order. -/
def postedKeys (i size b r : ℕ) : List (ℕ × ℕ) :=
  ((List.range b).flatMap fun b' => (otherRanks i size).map (b', ·)) ++
    (otherRanks i r).map (b, ·)

theorem postedKeys_next (i size b : ℕ) :
    postedKeys i size b size = postedKeys i size (b + 1) 0 := by
  simp [postedKeys, List.range_succ, otherRanks]

theorem postedKeys_own (i size b : ℕ) : postedKeys i size b (i + 1) = postedKeys i size b i := by
  simp [postedKeys, otherRanks_succ]

theorem postedKeys_succ {i r : ℕ} (size b : ℕ) (hne : r ≠ i) :
    postedKeys i size b (r + 1) = postedKeys i size b r ++ [(b, r)] := by
  simp [postedKeys, otherRanks_succ, hne]

/-- Of the operations for one bit shift there is one for each other rank. -/
theorem countP_postedKeys (i size : ℕ) {b n : ℕ} (hb : b < n) (p : ℕ → Bool) :
    (postedKeys i size n 0).countP (fun key => key.1 = b && p key.2) =
      (otherRanks i size).countP p := by
  have hrow (b' : ℕ) : ((otherRanks i size).map (b', ·)).countP (fun key => key.1 = b && p key.2) =
      if b' = b then (otherRanks i size).countP p else 0 := by
    rw [List.countP_map]
    by_cases heq : b' = b
    · simp [heq, Function.comp_def]
    · simp [heq, Function.comp_def]
  have hall : ((List.range n).flatMap fun b' => (otherRanks i size).map (b', ·)).countP
      (fun key => key.1 = b && p key.2) = if b < n then (otherRanks i size).countP p else 0 := by
    clear hb
    -- one row of the loop after the other
    induction n with
    | zero => rfl
    | succ n ih =>
      rw [List.range_succ, List.flatMap_append, List.countP_append, ih, List.flatMap_singleton,
        hrow]
      split_ifs <;> omega
  rw [postedKeys, List.countP_append, hall, if_pos hb]
  simp [otherRanks]

/-- The receives that the main function has posted, by its place. -/
def SendRecvPc.receiveKeys (i size : ℕ) : SendRecvPc → List (ℕ × ℕ)
  | fill b => postedKeys i size b 0
  | recv b r => postedKeys i size b r
  | send b r => postedKeys i size b (r + 1)
  | wait | join | done => postedKeys i size bitshifts 0

/-- The sends. -/
def SendRecvPc.sendKeys (i size : ℕ) : SendRecvPc → List (ℕ × ℕ)
  | fill b => postedKeys i size b 0
  | recv b r | send b r => postedKeys i size b r
  | wait | join | done => postedKeys i size bitshifts 0

/-- The operations of rank `k` are those that its main function has posted. -/
structure TestRank.Listed (size k : ℕ) (l : TestRank) : Prop where
  peer : ∀ b r, l.pc = .send b r → r ≠ k
  receives : l.receives.map (fun x => (x.bitshift, x.peer)) = l.pc.receiveKeys k size
  sends : l.sends.map (fun x => (x.bitshift, x.peer)) = l.pc.sendKeys k size

theorem SendRecvStep.listed (h : SendRecvStep size i s l s' l') (hl : l.Listed size i) :
    l'.Listed size i := by
  obtain ⟨hpeer, hreceiveKeys, hsendKeys⟩ := hl
  cases h with
  | @fill _ _ b hpc hb =>
    rw [hpc] at hreceiveKeys hsendKeys
    exact ⟨by simp, hreceiveKeys, hsendKeys⟩
  | @own _ _ b hpc hi =>
    rw [hpc] at hreceiveKeys hsendKeys
    -- the rank itself adds nothing to the operations that are listed
    have hkeys := (postedKeys_own i size b).symm
    exact ⟨by simp, hreceiveKeys.trans hkeys, hsendKeys.trans hkeys⟩
  | @recv _ _ b r hpc hr hne =>
    rw [hpc] at hreceiveKeys hsendKeys
    refine ⟨fun b' r' hpc' => ?_, ?_, hsendKeys⟩
    · obtain ⟨-, rfl⟩ := SendRecvPc.send.inj hpc'
      exact hne
    · simp only [List.map_append, hreceiveKeys, SendRecvPc.receiveKeys]
      exact (postedKeys_succ size b hne).symm
  | @send _ _ b r hpc =>
    have hne := hpeer b r hpc
    rw [hpc] at hreceiveKeys hsendKeys
    refine ⟨by simp, hreceiveKeys, ?_⟩
    simp only [List.map_append, hsendKeys, SendRecvPc.sendKeys]
    exact (postedKeys_succ size b hne).symm
  | @loopEnd _ _ b hpc =>
    rw [hpc] at hreceiveKeys hsendKeys
    have hkeys := postedKeys_next i size b
    exact ⟨by simp, hreceiveKeys.trans hkeys, hsendKeys.trans hkeys⟩
  | fillEnd hpc | wait hpc | join hpc =>
    rw [hpc] at hreceiveKeys hsendKeys
    exact ⟨by simp, hreceiveKeys, hsendKeys⟩
  -- the network and the handlers change how far an operation is, not what it is
  | matched hreceives | write hreceives | recvComplete hreceives | truncate hreceives
  | recvVerify hreceives =>
    rw [hreceives] at hreceiveKeys
    exact ⟨hpeer, by simpa using hreceiveKeys, hsendKeys⟩
  | sendComplete hsends | sendVerify hsends =>
    rw [hsends] at hsendKeys
    exact ⟨hpeer, hreceiveKeys, by simpa using hsendKeys⟩

theorem listed_of_reachable (hc : (sendRecvTest size).Reachable c) :
    ∀ (k : ℕ) (l : TestRank), c.threads[k]? = some l → l.Listed size k := by
  refine hc.forall_threads (P := fun k _ l => l.Listed size k) ?_ ?_ ?_
  · rintro ⟨s, ranks⟩ ⟨-, -, rfl⟩ k l hget
    rw [List.eq_of_mem_replicate (List.mem_of_getElem? hget)]
    exact ⟨by simp, rfl, rfl⟩
  · exact fun _ _ _ _ _ _ _ hl h => h.listed hl
  · exact fun _ _ _ _ _ _ _ _ _ _ _ _ hk _ => hk

/-- A rank that waits has posted fewer operations than a counter can hold, in a job of the given
size. -/
theorem TestRank.Listed.length_receives_lt (hl : l.Listed size i) (hpc : l.pc = .wait)
    (hsize : size ≤ 2 ^ 27) : l.receives.length < 2 ^ 32 := by
  have hkeys := congrArg List.length hl.receives
  rw [hpc, List.length_map] at hkeys
  have hothers := length_otherRanks_le i size
  have hposted : (postedKeys i size bitshifts 0).length =
      bitshifts * (otherRanks i size).length := by
    simp [postedKeys, otherRanks, List.length_flatMap]
  have hbound : l.receives.length = 20 * (otherRanks i size).length := hkeys.trans hposted
  omega

/-- And one receive for each bit shift and each other rank. -/
theorem TestRank.Listed.exists_receive (hl : l.Listed size i) (hpc : l.pc = .done) {b r : ℕ}
    (hb : b < bitshifts) (hr : r < size) (hne : r ≠ i) :
    ∃ x ∈ l.receives, x.bitshift = b ∧ x.peer = r := by
  have hmem : (b, r) ∈ l.receives.map fun x => (x.bitshift, x.peer) := by
    rw [hl.receives, hpc, SendRecvPc.receiveKeys, postedKeys]
    refine List.mem_append_left _ (List.mem_flatMap.mpr ⟨b, List.mem_range.mpr hb, ?_⟩)
    exact List.mem_map_of_mem (mem_otherRanks.mpr ⟨hr, hne⟩)
  obtain ⟨x, hx, hkey⟩ := List.mem_map.mp hmem
  exact ⟨x, hx, Prod.mk.inj hkey⟩

/-! ### What a step does to the memory -/

/-- A send buffer is filled with its tag. -/
def TestNet.SendFilled (s : TestNet) (rank bitshift : ℕ) : Prop :=
  s.mem.Filled (.send rank bitshift) (msgSize bitshift) (testByte bitshift)

/-- Every byte of a receive buffer is from a message that was sent with its tag. -/
def TestNet.RecvFilled (s : TestNet) (rank bitshift : ℕ) : Prop :=
  s.mem.Filled (.recv rank bitshift) (msgSize bitshift) (testByte bitshift)

/-- A send buffer that is filled stays so. -/
theorem SendRecvStep.sendFilled (h : SendRecvStep size i s l s' l') {rank b : ℕ}
    (hfilled : s.SendFilled rank b) : s'.SendFilled rank b := by
  cases h with
  | fill hpc hb =>
    -- it is filled with the same byte again, or not touched
    refine (Buffers.Filled.fill hfilled ?_).fill nofun
    rintro ⟨⟩
    rfl
  | write hreceives hfits hj => exact hfilled.write nofun
  | _ => exact hfilled

/-- A rank writes into its own receive buffers only. -/
theorem SendRecvStep.recv_eq (h : SendRecvStep size i s l s' l') {rank : ℕ} (hne : rank ≠ i)
    (b : ℕ) : s'.mem (.recv rank b) = s.mem (.recv rank b) := by
  cases h with
  | fill hpc hb => simp [Buffers.fill, hne]
  | write hreceives hfits hj => simp [Buffers.write, hne]
  | _ => rfl

/-! ### What a rank knows -/

/-- The loops stay within their bounds. -/
def SendRecvPc.InBounds (size : ℕ) : SendRecvPc → Prop
  | fill b => b ≤ bitshifts
  | recv b r => b < bitshifts ∧ r ≤ size
  | send b r => b < bitshifts ∧ r < size
  | wait | join | done => True

/-- The number of bit shifts whose buffers are filled. -/
def SendRecvPc.filled : SendRecvPc → ℕ
  | fill b => b
  | recv b _ | send b _ => b + 1
  | wait | join | done => bitshifts

/-- The counters have been waited for. -/
def SendRecvPc.hasWaited : SendRecvPc → Prop
  | join | done => True
  | _ => False

theorem SendRecvPc.InBounds.filled_le {pc : SendRecvPc} (h : pc.InBounds size) :
    pc.filled ≤ bitshifts := by
  cases pc with
  | fill b => exact h
  | recv b r | send b r => exact h.1
  | wait | join | done => exact le_rfl

/-- The bytes of a receive that are written are those of the tag, and its callback does not
throw. -/
def TestReceive.Sound (i : ℕ) (s : TestNet) (x : TestReceive) : Prop :=
  match x.progress with
  | .posted => True
  | .writing m written => m.bitshift = x.bitshift ∧ s.SendFilled m.src x.bitshift ∧
      ∀ j ∈ written, s.mem (.recv i x.bitshift) j = testByte x.bitshift
  | .verifying _ pc => s.RecvFilled i x.bitshift ∧ pc.Valid (msgSize x.bitshift)
  | .truncated _ => False

/-- The callback of a send does not throw. -/
def TestSend.Sound (x : TestSend) : Prop :=
  match x.progress with
  | .posted => True
  | .verifying pc => pc.Valid (msgSize x.bitshift)

structure TestRank.Sound (size i : ℕ) (s : TestNet) (l : TestRank) : Prop where
  pc : l.pc.InBounds size
  filled : ∀ b < l.pc.filled, s.SendFilled i b
  receives : ∀ x ∈ l.receives, x.bitshift < l.pc.filled ∧ x.Sound i s
  sends : ∀ x ∈ l.sends, x.bitshift < l.pc.filled ∧ x.Sound
  waited : l.pc.hasWaited → size ≤ 2 ^ 27 → ∀ x ∈ l.receives, x.isComplete = true

/-- The messages in flight are of buffers that are filled. -/
def TestNet.Sound (s : TestNet) : Prop :=
  ∀ m ∈ s.messages, m.bitshift < bitshifts ∧ s.SendFilled m.src m.bitshift

/-- What is known of a receive stays so if its buffer does. -/
theorem TestReceive.Sound.mono {x : TestReceive} (h : x.Sound i s)
    (hsend : ∀ rank b, s.SendFilled rank b → s'.SendFilled rank b)
    (hrecv : ∀ j, s.mem (.recv i x.bitshift) j = testByte x.bitshift →
      s'.mem (.recv i x.bitshift) j = testByte x.bitshift) : x.Sound i s' := by
  unfold Sound at h ⊢
  split
  · trivial
  · next m written hprogress =>
    rw [hprogress] at h
    exact ⟨h.1, hsend _ _ h.2.1, fun j hj => hrecv j (h.2.2 j hj)⟩
  · next m pc hprogress =>
    rw [hprogress] at h
    exact ⟨fun j hj => hrecv j (h.1 j hj), h.2⟩
  · next m hprogress =>
    rw [hprogress] at h
    exact h

/-- A step of one rank leaves what another one knows. -/
theorem SendRecvStep.other (h : SendRecvStep size i s l s' l') {k : ℕ} {l₂ : TestRank}
    (hne : k ≠ i) (hl : l₂.Sound size k s) : l₂.Sound size k s' where
  pc := hl.pc
  filled b hb := h.sendFilled (hl.filled b hb)
  receives x hx := ⟨(hl.receives x hx).1, (hl.receives x hx).2.mono (fun _ _ => h.sendFilled)
    fun j hj => by rwa [h.recv_eq hne]⟩
  sends := hl.sends
  waited := hl.waited

/-- Messages in flight stay filled, and a new one is. -/
theorem SendRecvStep.net (h : SendRecvStep size i s l s' l') (hnet : s.Sound)
    (hl : l.Sound size i s) : s'.Sound := by
  have hkept {ms : List TestMessage} (hsub : ms ⊆ s.messages) :
      ∀ m ∈ ms, m.bitshift < bitshifts ∧ s'.SendFilled m.src m.bitshift :=
    fun m hm => ⟨(hnet m (hsub hm)).1, h.sendFilled (hnet m (hsub hm)).2⟩
  cases h with
  | @send _ _ b r hpc =>
    intro m hm
    rcases List.mem_append.mp hm with hm | hm
    · exact hnet m hm
    · obtain rfl := List.mem_singleton.mp hm
      have hbounds := hl.pc
      have hsend := hl.filled
      rw [hpc] at hbounds hsend
      exact ⟨hbounds.1, hsend b b.lt_succ_self⟩
  | matched hreceives hdst htag =>
    refine hkept fun m hm => ?_
    rcases List.mem_append.mp hm with hm | hm
    · exact List.mem_append_left _ hm
    · exact List.mem_append_right _ (List.mem_cons_of_mem _ hm)
  | _ => exact hkept (List.Subset.refl _)

/-- A receive of a rank goes on. -/
theorem TestRank.Sound.replace {rs rs' : List TestReceive} {b r : ℕ} {p p' : RecvProgress}
    (hl : l.Sound size i s) (hreceives : l.receives = rs ++ ⟨b, r, p⟩ :: rs')
    (hfilled : ∀ rank b, s.SendFilled rank b → s'.SendFilled rank b)
    (hstable : ∀ z : TestReceive, z.Sound i s → z.Sound i s')
    (hnew : TestReceive.Sound i s' ⟨b, r, p'⟩)
    (hcomplete : TestReceive.isComplete ⟨b, r, p⟩ = true →
      TestReceive.isComplete ⟨b, r, p'⟩ = true) :
    TestRank.Sound size i s' { l with receives := rs ++ ⟨b, r, p'⟩ :: rs' } := by
  have hbefore := hl.receives
  have hwaited := hl.waited
  rw [hreceives] at hbefore hwaited
  refine ⟨hl.pc, fun b hb => hfilled _ _ (hl.filled b hb), ?_, hl.sends, fun hpc hsize => ?_⟩
  · exact forall_mem_replace (fun z hz => ⟨(hbefore z hz).1, hstable z (hbefore z hz).2⟩)
      fun h => ⟨h.1, hnew⟩
  · exact forall_mem_replace (hwaited hpc hsize) hcomplete

/-- A send of a rank goes on. -/
theorem TestRank.Sound.replaceSend {xs xs' : List TestSend} {b r : ℕ} {p p' : SendProgress}
    (hl : l.Sound size i s) (hsends : l.sends = xs ++ ⟨b, r, p⟩ :: xs')
    (hnew : b < l.pc.filled → TestSend.Sound ⟨b, r, p'⟩) :
    TestRank.Sound size i s { l with sends := xs ++ ⟨b, r, p'⟩ :: xs' } := by
  have hbefore := hl.sends
  rw [hsends] at hbefore
  exact ⟨hl.pc, hl.filled, hl.receives, forall_mem_replace hbefore fun h => ⟨h.1, hnew h.1⟩,
    hl.waited⟩

/-- What is known of a receive that is in the list. -/
theorem TestRank.Sound.of_mem {rs rs' : List TestReceive} {x : TestReceive}
    (hl : l.Sound size i s) (hreceives : l.receives = rs ++ x :: rs') :
    x.bitshift < bitshifts ∧ x.Sound i s := by
  obtain ⟨hlt, hsound⟩ := hl.receives x (by simp [hreceives])
  exact ⟨hlt.trans_le hl.pc.filled_le, hsound⟩

/-- The main function of a rank goes on, with the same operations. -/
theorem TestRank.Sound.advance (pc : SendRecvPc) (hl : l.Sound size i s)
    (hbounds : pc.InBounds size) (hpc : pc.filled = l.pc.filled)
    (hwaited : pc.hasWaited → size ≤ 2 ^ 27 → ∀ x ∈ l.receives, x.isComplete = true) :
    TestRank.Sound size i s { l with pc := pc } where
  pc := hbounds
  filled b hb := hl.filled b (hb.trans_eq hpc)
  receives x hx := ⟨(hl.receives x hx).1.trans_eq hpc.symm, (hl.receives x hx).2⟩
  sends x hx := ⟨(hl.sends x hx).1.trans_eq hpc.symm, (hl.sends x hx).2⟩
  waited := hwaited

/-- A rank knows what it knows after its own steps too. -/
theorem SendRecvStep.sound (h : SendRecvStep size i s l s' l') (hlisted : l.Listed size i)
    (hnet : s.Sound) (hl : l.Sound size i s) : l'.Sound size i s' := by
  have hfilled (rank b : ℕ) : s.SendFilled rank b → s'.SendFilled rank b := h.sendFilled
  have hbounds := hl.pc
  cases h with
  | @fill _ _ b hpc hb =>
    have hfill := hl.filled
    have hreceives := hl.receives
    have hsends := hl.sends
    rw [hpc] at hfill hreceives hsends
    refine ⟨⟨hb, size.zero_le⟩, fun b' hb' => ?_, fun x hx => ?_, fun x hx => ?_, False.elim⟩
    · -- the send buffer has just been filled, or was before
      rcases Nat.lt_succ_iff_lt_or_eq.mp hb' with hlt | rfl
      · exact hfilled _ _ (hfill b' hlt)
      · have hnew := s.mem.filled_fill (.send i b') (msgSize b') (testByte b')
        exact hnew.fill (by simp)
    · obtain ⟨hlt, hsound⟩ := hreceives x hx
      refine ⟨Nat.lt_succ_of_lt hlt, hsound.mono hfilled fun j hj => ?_⟩
      have hne : x.bitshift ≠ b := Nat.ne_of_lt hlt
      simpa [Buffers.fill, hne] using hj
    · exact ⟨Nat.lt_succ_of_lt (hsends x hx).1, (hsends x hx).2⟩
  | @own _ _ b hpc hi =>
    rw [hpc] at hbounds
    exact hl.advance _ ⟨hbounds.1, hi⟩ (by rw [hpc]; rfl) False.elim
  | @recv _ _ b r hpc hr hne =>
    have hreceives := hl.receives
    have hsends := hl.sends
    have hfill := hl.filled
    rw [hpc] at hreceives hsends hbounds hfill
    refine ⟨⟨hbounds.1, hr⟩, hfill, fun x hx => ?_, hsends, False.elim⟩
    rcases List.mem_append.mp hx with hx | hx
    · exact hreceives x hx
    · rw [List.mem_singleton.mp hx]
      exact ⟨b.lt_succ_self, trivial⟩
  | @send _ _ b r hpc =>
    rw [hpc] at hbounds
    have hadvance := hl.advance (.recv b (r + 1)) hbounds (by rw [hpc]; rfl) False.elim
    refine ⟨hadvance.pc, hadvance.filled, hadvance.receives, fun x hx => ?_, False.elim⟩
    rcases List.mem_append.mp hx with hx | hx
    · exact hadvance.sends x hx
    · rw [List.mem_singleton.mp hx]
      exact ⟨b.lt_succ_self, trivial⟩
  | @loopEnd _ _ b hpc =>
    rw [hpc] at hbounds
    exact hl.advance _ hbounds.1 (by rw [hpc]; rfl) False.elim
  | fillEnd hpc => exact hl.advance _ trivial (by rw [hpc]; rfl) False.elim
  | wait hpc hsends hrecvs =>
    refine hl.advance _ trivial (by rw [hpc]; rfl) fun _ hsize => ?_
    exact WrappingCounter.forall_of_not_ofNat_lt (hlisted.length_receives_lt hpc hsize) hrecvs
  | join hpc hsends hrecvs =>
    exact hl.advance _ trivial (by rw [hpc]; rfl) fun _ => hl.waited (by rw [hpc]; trivial)
  | @matched mem pre post sent m _ rs rs' b r hreceives hdst htag =>
    -- the tags are equal, and so the bit shifts are
    obtain ⟨hlt, hsent⟩ := hnet m (by simp)
    obtain ⟨hb, -⟩ := hl.of_mem hreceives
    obtain rfl := testTag_injective hlt hb htag
    exact hl.replace hreceives hfilled (fun z hz => hz.mono hfilled fun _ hj => hj)
      ⟨rfl, hsent, fun j hj => absurd hj List.not_mem_nil⟩ (by simp [TestReceive.isComplete])
  | @write _ _ rs rs' b r j m written hreceives hfits hj =>
    obtain ⟨-, hshift, hsent, hwritten⟩ := hl.of_mem hreceives
    obtain rfl : m.bitshift = b := hshift
    have hbyte : s.mem (.send m.src m.bitshift) j = testByte m.bitshift := hsent j hj
    rw [hbyte] at hfilled ⊢
    -- it is the byte that every message with this tag writes
    have hstable (b k : ℕ) (hk : s.mem (.recv i b) k = testByte b) :
        s.mem.write (.recv i m.bitshift) j (testByte m.bitshift) (.recv i b) k = testByte b := by
      rw [Buffers.write_eq]
      split
      · next heq =>
        obtain ⟨⟨⟩, -⟩ := heq
        rfl
      · exact hk
    refine hl.replace hreceives hfilled (fun z hz => hz.mono hfilled (hstable z.bitshift))
      ⟨rfl, hfilled _ _ hsent, fun k hk => ?_⟩ (by simp [TestReceive.isComplete])
    rcases List.mem_cons.mp hk with rfl | hk
    · exact (Buffers.write_eq ..).trans (if_pos ⟨rfl, rfl⟩)
    · exact hstable m.bitshift k (hwritten k hk)
  | @truncate _ _ rs rs' b r m written hreceives hlong =>
    obtain ⟨-, hshift, -⟩ := hl.of_mem hreceives
    obtain rfl : m.bitshift = b := hshift
    exact absurd hlong (lt_irrefl _)
  | @recvComplete _ _ rs rs' b r m written hreceives hall =>
    obtain ⟨-, hshift, -, hwritten⟩ := hl.of_mem hreceives
    obtain rfl : m.bitshift = b := hshift
    exact hl.replace hreceives hfilled (fun z hz => hz)
      ⟨fun j hj => hwritten j (hall j hj), Nat.zero_le _⟩ fun _ => rfl
  | @sendComplete _ _ xs xs' b r hsends =>
    exact hl.replaceSend hsends fun _ => Nat.zero_le _
  | @recvVerify _ _ rs rs' b r m pc pc' hreceives hverify =>
    obtain ⟨-, hbuffer, -⟩ := hl.of_mem hreceives
    exact hl.replace hreceives hfilled (fun z hz => hz) ⟨hbuffer, hverify.valid hbuffer⟩
      fun _ => rfl
  | @sendVerify _ _ xs xs' b r pc pc' hsends hverify =>
    exact hl.replaceSend hsends fun hlt => hverify.valid (hl.filled b hlt)

/-- The messages are those of filled buffers, and every rank knows what it knows. -/
theorem sound_of_reachable (hc : (sendRecvTest size).Reachable c) : c.shared.Sound ∧
    ∀ (i : ℕ) (l : TestRank), c.threads[i]? = some l → l.Sound size i c.shared := by
  refine hc.invariant (I := fun c => c.shared.Sound ∧
    ∀ (i : ℕ) (l : TestRank), c.threads[i]? = some l → l.Sound size i c.shared) ?_ ?_
  · rintro ⟨s, ranks⟩ ⟨hnet, -, rfl⟩
    refine ⟨fun m hm => ?_, fun i l hget => ?_⟩
    · rw [hnet] at hm
      cases hm
    · rw [List.eq_of_mem_replicate (List.mem_of_getElem? hget)]
      exact ⟨Nat.zero_le _, fun b hb => absurd hb b.not_lt_zero, by simp, by simp, False.elim⟩
  · rintro c _ hc ⟨hnet, hranks⟩ ⟨i, hget, h⟩
    refine ⟨h.net hnet (hranks i _ hget), fun k l hk => ?_⟩
    rcases ThreadSystem.getElem?_set_cases hk with ⟨rfl, rfl⟩ | ⟨hne, hk⟩
    · exact h.sound (listed_of_reachable hc k _ hget) hnet (hranks k _ hget)
    · exact h.other hne (hranks k l hk)

end LibFatbat
