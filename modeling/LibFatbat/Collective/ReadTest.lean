import LibFatbat.Bits.Counter
import LibFatbat.Collective.KeyExchange
import LibFatbat.Collective.Buffers
import LibFatbat.Memory.ExportedBuffers

/-!
# The read test

The main function of `rdma-read-test.cxx`, without a GPU, run by every rank of a job. A rank fills a
buffer for every peer, exchanges the keys of these buffers with `exchange_rma_keys`, and then reads,
in each of five iterations, from every peer. The callback of a read verifies what was read.

A comment in the source calls this racy: the wait of an iteration looks at the counters, which are
incremented before the callbacks are called, so that the next read may be written into a buffer
while the callback of the one before verifies it.

The ranks are the threads of a `ThreadSystem`; what they share is the memory, with the messages in
flight. A receive is matched by its tag alone. A read writes the bytes of its buffer in any order,
and fails if its key and its remote address are not for memory of the rank it reads from. What it
reads is what that rank has at the address, which is some byte of a buffer only if the address was
computed right. Fences only let a rank go on, and the buffers are freed after the last one: both are
left out.

`sound_of_readTest`: with at most `2 ^ 24` ranks, and remote addresses that reach the buffers
(`ExportedBuffers.Reached`), the keys are those of the buffers, and the reads are right.
-/

open Concurrent

namespace LibFatbat

/-- `message_size`. -/
def messageSize : ℕ := 1024 * 1024 * 16

/-- The bound of the loop over `iterations`. -/
def readIterations : ℕ := 5

/-- `static_cast<uint8_t>(rank)`. -/
def rankByte (rank : ℕ) : BitVec 8 := BitVec.ofNat 8 rank

/-- The buffers of a rank. -/
inductive ReadBuffer
  /-- In `rma_read_buffers`: what was read from a peer. -/
  | read (rank peer : ℕ)
  /-- In `local_data_buffers`: what a peer reads. -/
  | data (rank reader : ℕ)
  deriving DecidableEq

/-- The buffers that a rank fills for its readers. They do not overlap. -/
structure DataBuffers (size : ℕ) extends ExportedBuffers ℕ messageSize where
  disjoint : ∀ r k k' j j' : ℕ, k < size → k' < size → j < messageSize → j' < messageSize →
    toExportedBuffers.address r k + BitVec.ofNat 64 j =
      toExportedBuffers.address r k' + BitVec.ofNat 64 j' → k = k'

/-- A message: the key that rank `src` sends to rank `dst`. -/
structure ReadKeyMessage where
  src : ℕ
  dst : ℕ
  key : RmaKeyInfo
  deriving DecidableEq

/-- Where the receive of a key is. -/
inductive KeyProgress
  | posted
  | matched (key : RmaKeyInfo)
  | complete
  deriving DecidableEq

/-- The receive of a key, posted for `peer`. -/
structure ReadKeyReceive where
  peer : ℕ
  progress : KeyProgress
  deriving DecidableEq

/-- Where a read is. -/
inductive ReadProgress
  /-- Some of its bytes are written. -/
  | writing (written : List ℕ)
  /-- Complete, and its callback called. -/
  | verifying (pc : VerifyPc)
  | failed
  deriving DecidableEq

/-- A read that a rank has posted, from `peer`. -/
structure RemoteRead where
  peer : ℕ
  key : RmaKeyInfo
  progress : ReadProgress
  deriving DecidableEq

/-- Where the main function of a rank is. -/
inductive ReadPc
  /-- At the allocation and filling of the buffers for a rank. -/
  | alloc (r : ℕ)
  /-- In the loop of `exchange_rma_keys`, at the receive. -/
  | recv (r : ℕ)
  | send (r : ℕ)
  /-- In `wait_for_msg_completions`. -/
  | waitKeys
  /-- In the loop over the ranks of an iteration. -/
  | read (iteration r : ℕ)
  /-- In the loop that waits for the counters of the reads. -/
  | waitReads (iteration : ℕ)
  | done
  /-- It has thrown "invalid RMA key info length". -/
  | invalidKey
  deriving DecidableEq

/-- A rank: its main function and its operations. -/
structure ReadRank where
  pc : ReadPc
  localDataKeys : ℕ → RmaKeyInfo
  rmaReadKeys : ℕ → RmaKeyInfo
  receives : List ReadKeyReceive
  sendsPosted : ℕ
  sendsComplete : ℕ
  reads : List RemoteRead

/-- A rank before it allocates, in memory that is 0. -/
def ReadRank.start : ReadRank :=
  ⟨.alloc 0, fun _ => ⟨0, 0, 0⟩, fun _ => ⟨0, 0, 0⟩, [], 0, 0, []⟩

/-- The memory of the ranks and the messages in flight. -/
structure ReadNet where
  mem : Buffers ReadBuffer (BitVec 8)
  messages : List ReadKeyMessage

/-- The byte of rank `r` at an address, which is any byte where there is no buffer that the rank has
for its readers. -/
def ReadNet.ByteAt {size : ℕ} (b : DataBuffers size) (s : ReadNet) (r : ℕ) (a : Address)
    (byte : BitVec 8) : Prop :=
  ∀ k < size, ∀ j < messageSize, a = b.address r k + BitVec.ofNat 64 j →
    byte = s.mem (.data r k) j

/-- The completion of a receive is counted. -/
def ReadKeyReceive.isComplete (x : ReadKeyReceive) : Bool := x.progress = .complete

/-- The completion of a read is counted. -/
def RemoteRead.isComplete (x : RemoteRead) : Bool :=
  match x.progress with
  | .verifying _ => true
  | .writing _ | .failed => false

/-- The steps of rank `i` of `size`: of its main function, of the network, and of its callbacks. -/
inductive ReadTestStep {size : ℕ} (b : DataBuffers size) (i : ℕ) :
    ReadNet → ReadRank → ReadNet → ReadRank → Prop
  | alloc {s : ReadNet} {l : ReadRank} {r : ℕ} {info : RmaKeyInfo} (hpc : l.pc = .alloc r)
      (hr : r < size)
      (hinfo : (b.handle i r).rmaKeyInfo (BitVec.ofNat 64 messageSize) = some info) :
      ReadTestStep b i s l
        { s with mem := s.mem.fill (.data i r) messageSize (rankByte i) }
        { l with pc := .alloc (r + 1)
                 localDataKeys := Function.update l.localDataKeys r info }
  | allocEnd {s : ReadNet} {l : ReadRank} (hpc : l.pc = .alloc size) :
      ReadTestStep b i s l s { l with pc := .recv 0 }
  -- `exchange_rma_keys`.
  | own {s : ReadNet} {l : ReadRank} (hpc : l.pc = .recv i) (hi : i < size) :
      ReadTestStep b i s l s { l with pc := .recv (i + 1) }
  | recv {s : ReadNet} {l : ReadRank} {r : ℕ} (hpc : l.pc = .recv r) (hr : r < size) (hne : r ≠ i) :
      ReadTestStep b i s l s
        { l with pc := .send r, receives := l.receives ++ [⟨r, .posted⟩] }
  | send {s : ReadNet} {l : ReadRank} {r : ℕ} (hpc : l.pc = .send r) :
      ReadTestStep b i s l
        { s with messages := s.messages ++ [⟨i, r, l.localDataKeys r⟩] }
        { l with pc := .recv (r + 1), sendsPosted := l.sendsPosted + 1 }
  | exchangeEnd {s : ReadNet} {l : ReadRank} (hpc : l.pc = .recv size) :
      ReadTestStep b i s l s { l with pc := .waitKeys }
  | keysWaited {s : ReadNet} {l : ReadRank} (hpc : l.pc = .waitKeys)
      (hsends : ¬ BitVec.ofNat 32 l.sendsComplete < BitVec.ofNat 32 l.sendsPosted)
      (hrecvs : ¬ BitVec.ofNat 32 (l.receives.countP ReadKeyReceive.isComplete) <
        BitVec.ofNat 32 l.receives.length) :
      ReadTestStep b i s l s { l with pc := .read 0 0 }
  -- The loop over the iterations, and the one over the ranks.
  | readOwn {s : ReadNet} {l : ReadRank} {t : ℕ} (hpc : l.pc = .read t i) (ht : t < readIterations)
      (hi : i < size) :
      ReadTestStep b i s l s { l with pc := .read t (i + 1) }
  | invalid {s : ReadNet} {l : ReadRank} {t r : ℕ} (hpc : l.pc = .read t r)
      (ht : t < readIterations) (hr : r < size) (hne : r ≠ i)
      (hlength : (l.rmaReadKeys r).length ≠ BitVec.ofNat 64 messageSize) :
      ReadTestStep b i s l s { l with pc := .invalidKey }
  | read {s : ReadNet} {l : ReadRank} {t r : ℕ} (hpc : l.pc = .read t r)
      (ht : t < readIterations) (hr : r < size) (hne : r ≠ i)
      (hlength : (l.rmaReadKeys r).length = BitVec.ofNat 64 messageSize) :
      ReadTestStep b i s l s
        { l with pc := .read t (r + 1), reads := l.reads ++ [⟨r, l.rmaReadKeys r, .writing []⟩] }
  | readsPosted {s : ReadNet} {l : ReadRank} {t : ℕ} (hpc : l.pc = .read t size)
      (ht : t < readIterations) :
      ReadTestStep b i s l s { l with pc := .waitReads t }
  | readsWaited {s : ReadNet} {l : ReadRank} {t : ℕ} (hpc : l.pc = .waitReads t)
      (hreads : ¬ BitVec.ofNat 32 (l.reads.countP RemoteRead.isComplete) <
        BitVec.ofNat 32 l.reads.length) :
      ReadTestStep b i s l s { l with pc := .read (t + 1) 0 }
  | readsEnd {s : ReadNet} {l : ReadRank} (hpc : l.pc = .read readIterations 0) :
      ReadTestStep b i s l s { l with pc := .done }
  -- The network.
  | sendComplete {s : ReadNet} {l : ReadRank} (hposted : l.sendsComplete < l.sendsPosted) :
      ReadTestStep b i s l s { l with sendsComplete := l.sendsComplete + 1 }
  | matched {mem : Buffers ReadBuffer (BitVec 8)} {pre post : List ReadKeyMessage}
      {m : ReadKeyMessage} {l : ReadRank} {rs rs' : List ReadKeyReceive} {r : ℕ}
      (hreceives : l.receives = rs ++ ⟨r, .posted⟩ :: rs') (hdst : m.dst = i)
      (htag : ExchangePhase.exchange.tag m.src = ExchangePhase.exchange.tag r) :
      ReadTestStep b i ⟨mem, pre ++ m :: post⟩ l ⟨mem, pre ++ post⟩
        { l with receives := rs ++ ⟨r, .matched m.key⟩ :: rs' }
  | recvComplete {s : ReadNet} {l : ReadRank} {rs rs' : List ReadKeyReceive} {r : ℕ}
      {key : RmaKeyInfo} (hreceives : l.receives = rs ++ ⟨r, .matched key⟩ :: rs') :
      ReadTestStep b i s l s
        { l with receives := rs ++ ⟨r, .complete⟩ :: rs'
                 rmaReadKeys := Function.update l.rmaReadKeys r key }
  -- A read is posted with the address that `remote_rma_addr_ptr` gives for offset 0.
  | write {s : ReadNet} {l : ReadRank} {xs xs' : List RemoteRead} {r j : ℕ} {key : RmaKeyInfo}
      {written : List ℕ} {a : Address} {byte : BitVec 8}
      (hreads : l.reads = xs ++ ⟨r, key, .writing written⟩ :: xs')
      (hkey : b.Permits r key (b.remoteAddr key 0)) (hj : j < messageSize)
      (htarget : b.target r key (b.remoteAddr key 0 + BitVec.ofNat 64 j) = some a)
      (hbyte : s.ByteAt b r a byte) :
      ReadTestStep b i s l
        { s with mem := s.mem.write (.read i r) j byte }
        { l with reads := xs ++ ⟨r, key, .writing (j :: written)⟩ :: xs' }
  | fail {s : ReadNet} {l : ReadRank} {xs xs' : List RemoteRead} {r : ℕ} {key : RmaKeyInfo}
      {written : List ℕ} (hreads : l.reads = xs ++ ⟨r, key, .writing written⟩ :: xs')
      (hkey : ¬ b.Permits r key (b.remoteAddr key 0)) :
      ReadTestStep b i s l s { l with reads := xs ++ ⟨r, key, .failed⟩ :: xs' }
  | readComplete {s : ReadNet} {l : ReadRank} {xs xs' : List RemoteRead} {r : ℕ} {key : RmaKeyInfo}
      {written : List ℕ} (hreads : l.reads = xs ++ ⟨r, key, .writing written⟩ :: xs')
      (hall : ∀ j < messageSize, j ∈ written) :
      ReadTestStep b i s l s
        { l with reads := xs ++ ⟨r, key, .verifying (.index 0)⟩ :: xs' }
  -- The callback, which is passed the rank that was read from.
  | verify {s : ReadNet} {l : ReadRank} {xs xs' : List RemoteRead} {r : ℕ} {key : RmaKeyInfo}
      {pc pc' : VerifyPc} (hreads : l.reads = xs ++ ⟨r, key, .verifying pc⟩ :: xs')
      (h : VerifyStep s.mem (.read i r) messageSize (rankByte r) pc pc') :
      ReadTestStep b i s l s { l with reads := xs ++ ⟨r, key, .verifying pc'⟩ :: xs' }

/-- The ranks of a job of the given size, with any memory at first. -/
def readTest {size : ℕ} (b : DataBuffers size) : ThreadSystem ReadNet ReadRank where
  init c := c.shared.messages = [] ∧ c.threads.length = size ∧
    ∀ l ∈ c.threads, l.pc = .alloc 0 ∧ l.receives = [] ∧ l.sendsPosted = 0 ∧
      l.sendsComplete = 0 ∧ l.reads = []
  step := ReadTestStep b

variable {size i : ℕ} {b : DataBuffers size} {s s' : ReadNet} {l l' : ReadRank}
  {c : Config ReadNet ReadRank}

/-! ### What a step does to the memory -/

/-- The buffer that rank `r` has filled for rank `k`. -/
def ReadNet.DataFilled (s : ReadNet) (r k : ℕ) : Prop :=
  s.mem.Filled (.data r k) messageSize (rankByte r)

/-- A buffer that is filled stays so. -/
theorem ReadTestStep.dataFilled (h : ReadTestStep b i s l s' l') {r k : ℕ}
    (hfilled : s.DataFilled r k) : s'.DataFilled r k := by
  cases h with
  | alloc hpc hr =>
    refine Buffers.Filled.fill hfilled ?_
    rintro ⟨⟩
    rfl
  | write hreads hkey hj => exact hfilled.write nofun
  | _ => exact hfilled

/-- A rank reads into its own buffers only. -/
theorem ReadTestStep.read_eq (h : ReadTestStep b i s l s' l') {k : ℕ} (hne : k ≠ i) (r : ℕ) :
    s'.mem (.read k r) = s.mem (.read k r) := by
  cases h with
  | alloc hpc hr => simp [Buffers.fill]
  | write hreads hkey hj => simp [Buffers.write, hne]
  | _ => rfl

/-! ### What a rank knows -/

/-- The number of ranks that buffers are filled for. -/
def ReadPc.allocated (size : ℕ) : ReadPc → ℕ
  | alloc r => r
  | _ => size

/-- The ranks that receives are posted for. -/
def ReadPc.receivePeers (size i : ℕ) : ReadPc → List ℕ
  | alloc _ => []
  | recv r => otherRanks i r
  | send r => otherRanks i (r + 1)
  | _ => otherRanks i size

/-- The ranks that were read from. -/
def ReadPc.readPeers (size i : ℕ) : ReadPc → List ℕ
  | read t r => (List.replicate t (otherRanks i size)).flatten ++ otherRanks i r
  | waitReads t => (List.replicate (t + 1) (otherRanks i size)).flatten
  | done => (List.replicate readIterations (otherRanks i size)).flatten
  | _ => []

/-- The keys are exchanged. -/
def ReadPc.hasKeys : ReadPc → Prop
  | read _ _ | waitReads _ | done => True
  | _ => False

/-- The reads posted so far are waited for. -/
def ReadPc.hasWaited : ReadPc → Prop
  | read _ r => r = 0
  | done => True
  | _ => False

/-- The loops stay within their bounds. -/
def ReadPc.InBounds (size i : ℕ) : ReadPc → Prop
  | alloc r | recv r => r ≤ size
  | send r => r < size ∧ r ≠ i
  | read t r => t ≤ readIterations ∧ r ≤ size ∧ (t = readIterations → r = 0)
  | waitReads t => t < readIterations
  | waitKeys | done => True
  | invalidKey => False

/-- The key of a buffer that rank `r` has filled for rank `k`. -/
def DataBuffers.KeySound (b : DataBuffers size) (r k : ℕ) (s : ReadNet) (key : RmaKeyInfo) : Prop :=
  key = b.keyInfo r k ∧ s.DataFilled r k

/-- The key that a receive has got is that of the peer it was posted for. -/
def ReadKeyReceive.Sound (b : DataBuffers size) (i : ℕ) (s : ReadNet) (keys : ℕ → RmaKeyInfo)
    (x : ReadKeyReceive) : Prop :=
  match x.progress with
  | .posted => True
  | .matched key => b.KeySound x.peer i s key
  | .complete => b.KeySound x.peer i s (keys x.peer)

/-- The bytes of a read that are written are those of the peer, and its callback does not throw. -/
def RemoteRead.Sound (b : DataBuffers size) (i : ℕ) (s : ReadNet) (x : RemoteRead) : Prop :=
  b.KeySound x.peer i s x.key ∧
    match x.progress with
    | .writing written => ∀ j ∈ written, s.mem (.read i x.peer) j = rankByte x.peer
    | .verifying pc =>
      s.mem.Filled (.read i x.peer) messageSize (rankByte x.peer) ∧ pc.Valid messageSize
    | .failed => False

structure ReadRank.Sound (b : DataBuffers size) (i : ℕ) (s : ReadNet) (l : ReadRank) : Prop where
  pc : l.pc.InBounds size i
  allocated : ∀ k < l.pc.allocated size,
    b.KeySound i k s (l.localDataKeys k)
  receivePeers : l.receives.map ReadKeyReceive.peer = l.pc.receivePeers size i
  receives : ∀ x ∈ l.receives, x.Sound b i s l.rmaReadKeys
  hasKeys : l.pc.hasKeys → ∀ x ∈ l.receives, x.progress = .complete
  readPeers : l.reads.map RemoteRead.peer = l.pc.readPeers size i
  reads : ∀ x ∈ l.reads, x.Sound b i s
  hasWaited : l.pc.hasWaited → ∀ x ∈ l.reads, x.isComplete = true

/-- The keys in flight are those of buffers that are filled for the rank they are sent to. -/
def ReadNet.Sound (b : DataBuffers size) (s : ReadNet) : Prop :=
  ∀ m ∈ s.messages, m.src < size ∧ b.KeySound m.src m.dst s m.key

/-! ### Frames -/

theorem DataBuffers.KeySound.mono {r k : ℕ} {key : RmaKeyInfo} (h : b.KeySound r k s key)
    (hdata : ∀ r k, s.DataFilled r k → s'.DataFilled r k) : b.KeySound r k s' key :=
  h.imp_right (hdata r k)

theorem ReadKeyReceive.Sound.mono {keys : ℕ → RmaKeyInfo} {x : ReadKeyReceive}
    (h : x.Sound b i s keys) (hdata : ∀ r k, s.DataFilled r k → s'.DataFilled r k) :
    x.Sound b i s' keys := by
  unfold ReadKeyReceive.Sound at h ⊢
  split
  · trivial
  · next key hprogress =>
    rw [hprogress] at h
    exact DataBuffers.KeySound.mono h hdata
  · next hprogress =>
    rw [hprogress] at h
    exact DataBuffers.KeySound.mono h hdata

/-- What is known of a read stays so if what it is written into does. -/
theorem RemoteRead.Sound.mono {x : RemoteRead} (h : x.Sound b i s)
    (hdata : ∀ r k, s.DataFilled r k → s'.DataFilled r k)
    (hread : ∀ j, s.mem (.read i x.peer) j = rankByte x.peer →
      s'.mem (.read i x.peer) j = rankByte x.peer) : x.Sound b i s' := by
  obtain ⟨hkey, hprogress⟩ := h
  refine ⟨hkey.mono hdata, ?_⟩
  cases hx : x.progress with
  | writing written =>
    rw [hx] at hprogress
    exact fun j hj => hread j (hprogress j hj)
  | verifying pc =>
    rw [hx] at hprogress
    exact ⟨fun j hj => hread j (hprogress.1 j hj), hprogress.2⟩
  | failed =>
    rw [hx] at hprogress
    exact hprogress

/-- A step of one rank leaves what another one knows. -/
theorem ReadTestStep.other (h : ReadTestStep b i s l s' l') {k : ℕ} {l₂ : ReadRank}
    (hne : k ≠ i) (hl : l₂.Sound b k s) : l₂.Sound b k s' := by
  have hdata (r k : ℕ) : s.DataFilled r k → s'.DataFilled r k := h.dataFilled
  have hreads (x : RemoteRead) (hx : x.Sound b k s) : x.Sound b k s' :=
    hx.mono hdata fun j hj => by rwa [h.read_eq hne]
  exact { hl with
    allocated := fun k hk => (hl.allocated k hk).imp_right (hdata _ _)
    receives := fun x hx => (hl.receives x hx).mono hdata
    reads := fun x hx => hreads x (hl.reads x hx) }

/-- A key that is sent is that of a buffer that its sender has filled for the receiver. -/
theorem ReadTestStep.net (h : ReadTestStep b i s l s' l') (hi : i < size) (hnet : s.Sound b)
    (hl : l.Sound b i s) : s'.Sound b := by
  have hdata (r k : ℕ) : s.DataFilled r k → s'.DataFilled r k := h.dataFilled
  have hkept {ms : List ReadKeyMessage} (hsub : ms ⊆ s.messages) :
      ∀ m ∈ ms, m.src < size ∧ b.KeySound m.src m.dst s' m.key :=
    fun m hm => (hnet m (hsub hm)).imp_right fun hkey => hkey.mono hdata
  cases h with
  | @send _ _ r hpc =>
    intro m hm
    rcases List.mem_append.mp hm with hm | hm
    · exact hnet m hm
    · obtain rfl := List.mem_singleton.mp hm
      have hbounds := hl.pc
      have hfilled := hl.allocated
      rw [hpc] at hbounds hfilled
      exact ⟨hi, hfilled r hbounds.1⟩
  | matched hreceives hdst htag =>
    refine hkept fun m hm => ?_
    rcases List.mem_append.mp hm with hm | hm
    · exact List.mem_append_left _ hm
    · exact List.mem_append_right _ (List.mem_cons_of_mem _ hm)
  | _ => exact hkept (List.Subset.refl _)

/-- Different ranks have different tags. -/
theorem eq_of_exchange_tag (hsize : size ≤ 2 ^ 24) {r r' : ℕ} (hr : r < size) (hr' : r' < size)
    (h : ExchangePhase.exchange.tag r = ExchangePhase.exchange.tag r') : r = r' := by
  have hnat := congrArg BitVec.toNat h
  rw [ExchangePhase.exchange_tag, ExchangePhase.exchange_tag] at hnat
  omega

/-- The receives of a rank are posted for its peers. -/
theorem ReadRank.Sound.peer_lt (hl : l.Sound b i s) {x : ReadKeyReceive}
    (hx : x ∈ l.receives) : x.peer < size := by
  have hmem : x.peer ∈ l.pc.receivePeers size i := by
    rw [← hl.receivePeers]
    exact List.mem_map_of_mem hx
  have hbounds := hl.pc
  cases hpc : l.pc with
  | alloc r =>
    rw [hpc] at hmem
    cases hmem
  | recv r | send r =>
    rw [hpc] at hmem hbounds
    have hlt := (mem_otherRanks.mp hmem).1
    simp only [ReadPc.InBounds] at hbounds
    omega
  | _ =>
    rw [hpc] at hmem
    exact (mem_otherRanks.mp hmem).1

/-- A rank posts far fewer reads than a counter can hold. -/
theorem ReadRank.Sound.length_reads_lt (hl : l.Sound b i s) (hsize : size ≤ 2 ^ 24) {t : ℕ}
    (hpc : l.pc = .waitReads t) : l.reads.length < 2 ^ 32 := by
  have hbounds := hl.pc
  have hpeers := congrArg List.length hl.readPeers
  rw [hpc] at hbounds hpeers
  rw [List.length_map, ReadPc.readPeers, List.length_flatten, List.map_replicate,
    List.sum_replicate, smul_eq_mul] at hpeers
  have ht : t + 1 ≤ 5 := hbounds
  have hmul : (t + 1) * (otherRanks i size).length ≤ 5 * 2 ^ 24 :=
    Nat.mul_le_mul ht ((length_otherRanks_le i size).trans hsize)
  omega

/-! ### What a step does to what its rank knows -/

/-- The main function of a rank goes on, with the same operations. -/
theorem ReadRank.Sound.advance (pc : ReadPc) (hl : l.Sound b i s) (hbounds : pc.InBounds size i)
    (hallocated : pc.allocated size = l.pc.allocated size)
    (hreceivePeers : pc.receivePeers size i = l.pc.receivePeers size i)
    (hhasKeys : pc.hasKeys → ∀ x ∈ l.receives, x.progress = .complete)
    (hreadPeers : pc.readPeers size i = l.pc.readPeers size i)
    (hhasWaited : pc.hasWaited → ∀ x ∈ l.reads, x.isComplete = true) :
    ReadRank.Sound b i s { l with pc := pc } where
  pc := hbounds
  allocated k hk := hl.allocated k (hk.trans_eq hallocated)
  receivePeers := hl.receivePeers.trans hreceivePeers.symm
  receives := hl.receives
  hasKeys := hhasKeys
  readPeers := hl.readPeers.trans hreadPeers.symm
  reads := hl.reads
  hasWaited := hhasWaited

/-- A receive of a rank goes on. -/
theorem ReadRank.Sound.replaceReceive {rs rs' : List ReadKeyReceive} {r : ℕ} {p p' : KeyProgress}
    {keys : ℕ → RmaKeyInfo} (hl : l.Sound b i s) (hreceives : l.receives = rs ++ ⟨r, p⟩ :: rs')
    (hp : p ≠ .complete)
    (hkeys : ∀ z : ReadKeyReceive, z.Sound b i s l.rmaReadKeys → z.Sound b i s keys)
    (hnew : ReadKeyReceive.Sound b i s keys ⟨r, p'⟩)
    (hdata : ∀ r k, s.DataFilled r k → s'.DataFilled r k) (hmem : s'.mem = s.mem) :
    ReadRank.Sound b i s' { l with receives := rs ++ ⟨r, p'⟩ :: rs', rmaReadKeys := keys } := by
  have hpeers := hl.receivePeers
  have hbefore := hl.receives
  have hcomplete := hl.hasKeys
  rw [hreceives] at hpeers hbefore hcomplete
  refine { hl with
    allocated := fun k hk => (hl.allocated k hk).imp_right (hdata _ _)
    receivePeers := ?_
    receives := ?_
    hasKeys := ?_
    reads := fun x hx => (hl.reads x hx).mono hdata fun j hj => by rwa [hmem] }
  · rw [← hpeers, List.map_append, List.map_append]
    rfl
  · exact forall_mem_replace (fun z hz => (hkeys z (hbefore z hz)).mono hdata)
      fun _ => hnew.mono hdata
  · -- it was not complete, so the keys are not exchanged
    intro hpc
    exact absurd (hcomplete hpc ⟨r, p⟩ (by simp)) hp

/-- A read of a rank goes on. -/
theorem ReadRank.Sound.replaceRead {xs xs' : List RemoteRead} {r : ℕ} {key : RmaKeyInfo}
    {p p' : ReadProgress} (hl : l.Sound b i s) (hreads : l.reads = xs ++ ⟨r, key, p⟩ :: xs')
    (hdata : ∀ r k, s.DataFilled r k → s'.DataFilled r k)
    (hstable : ∀ z : RemoteRead, z.Sound b i s → z.Sound b i s')
    (hnew : RemoteRead.Sound b i s' ⟨r, key, p'⟩)
    (hcomplete : RemoteRead.isComplete ⟨r, key, p⟩ = true →
      RemoteRead.isComplete ⟨r, key, p'⟩ = true) :
    ReadRank.Sound b i s' { l with reads := xs ++ ⟨r, key, p'⟩ :: xs' } := by
  have hpeers := hl.readPeers
  have hbefore := hl.reads
  have hwaited := hl.hasWaited
  rw [hreads] at hpeers hbefore hwaited
  refine { hl with
    allocated := fun k hk => (hl.allocated k hk).imp_right (hdata _ _)
    receives := fun x hx => (hl.receives x hx).mono hdata
    readPeers := ?_
    reads := ?_
    hasWaited := fun hpc => forall_mem_replace (hwaited hpc) hcomplete }
  · rw [← hpeers, List.map_append, List.map_append]
    rfl
  · exact forall_mem_replace (fun z hz => hstable z (hbefore z hz)) fun _ => hnew

/-- What is known of a read that is in the list. -/
theorem ReadRank.Sound.of_mem {xs xs' : List RemoteRead} {x : RemoteRead}
    (hl : l.Sound b i s) (hreads : l.reads = xs ++ x :: xs') : x.Sound b i s :=
  hl.reads x (by simp [hreads])

/-- The key with which a rank reads from a peer. -/
theorem ReadRank.Sound.rmaReadKeys (hl : l.Sound b i s) (hpc : l.pc.hasKeys) {r : ℕ}
    (hpeer : r ∈ l.pc.receivePeers size i) : b.KeySound r i s (l.rmaReadKeys r) := by
  rw [← hl.receivePeers] at hpeer
  obtain ⟨x, hx, rfl⟩ := List.mem_map.mp hpeer
  have hsound := hl.receives x hx
  unfold ReadKeyReceive.Sound at hsound
  rw [hl.hasKeys hpc x hx] at hsound
  exact hsound

/-- A rank fills the buffer for rank `r`, and the key that it keeps is that of the buffer. -/
theorem ReadRank.Sound.alloc (hl : l.Sound b i s) {r : ℕ} (hpc : l.pc = .alloc r) (hr : r < size)
    (hdata : ∀ r' k, s.DataFilled r' k → ReadNet.DataFilled
      { s with mem := s.mem.fill (.data i r) messageSize (rankByte i) } r' k) :
    ReadRank.Sound b i { s with mem := s.mem.fill (.data i r) messageSize (rankByte i) }
      { l with pc := .alloc (r + 1)
               localDataKeys := Function.update l.localDataKeys r (b.keyInfo i r) } := by
  have hallocated := hl.allocated
  have hpeers := hl.receivePeers
  have hreadPeers := hl.readPeers
  rw [hpc] at hallocated hpeers hreadPeers
  refine ⟨hr, fun k hk => ?_, hpeers, fun x hx => (hl.receives x hx).mono hdata,
    False.elim, hreadPeers, fun x hx => ?_, False.elim⟩
  · -- the buffer for `r` has just been filled, the others were before
    rcases Nat.lt_succ_iff_lt_or_eq.mp hk with hlt | rfl
    · obtain ⟨hkey, hfilled⟩ := hallocated k hlt
      exact ⟨(Function.update_of_ne hlt.ne ..).trans hkey, hdata i k hfilled⟩
    · exact ⟨Function.update_self .., s.mem.filled_fill (.data i k) messageSize (rankByte i)⟩
  · refine (hl.reads x hx).mono hdata fun j hj => ?_
    simpa [Buffers.fill] using hj

/-- A rank posts the receive of a key. -/
theorem ReadRank.Sound.recv (hl : l.Sound b i s) {r : ℕ} (hpc : l.pc = .recv r) (hr : r < size)
    (hne : r ≠ i) :
    ReadRank.Sound b i s { l with pc := .send r, receives := l.receives ++ [⟨r, .posted⟩] } := by
  have hpeers := hl.receivePeers
  have hallocated := hl.allocated
  have hreadPeers := hl.readPeers
  rw [hpc] at hpeers hallocated hreadPeers
  refine ⟨⟨hr, hne⟩, hallocated, ?_, fun x hx => ?_, False.elim, hreadPeers, hl.reads, False.elim⟩
  · show (l.receives ++ [_]).map ReadKeyReceive.peer = otherRanks i (r + 1)
    rw [List.map_append, hpeers, otherRanks_succ, if_pos hne]
    rfl
  · rcases List.mem_append.mp hx with hx | hx
    · exact hl.receives x hx
    · rw [List.mem_singleton.mp hx]
      trivial

/-- A rank has waited for the keys. -/
theorem ReadRank.Sound.keysWaited (hl : l.Sound b i s) (hsize : size ≤ 2 ^ 24)
    (hpc : l.pc = .waitKeys)
    (hrecvs : ¬ BitVec.ofNat 32 (l.receives.countP ReadKeyReceive.isComplete) <
      BitVec.ofNat 32 l.receives.length) :
    ReadRank.Sound b i s { l with pc := .read 0 0 } := by
  have hpeers := congrArg List.length hl.receivePeers
  rw [hpc, List.length_map] at hpeers
  have hlength : l.receives.length < 2 ^ 32 := by
    have hle := length_otherRanks_le i size
    rw [hpeers]
    show (otherRanks i size).length < 2 ^ 32
    omega
  refine hl.advance _ ⟨readIterations.zero_le, size.zero_le, fun _ => rfl⟩ (by rw [hpc]; rfl)
    (by rw [hpc]; rfl) (fun _ x hx => ?_) (by rw [hpc]; rfl) fun _ x hx => ?_
  · exact of_decide_eq_true (WrappingCounter.forall_of_not_ofNat_lt hlength hrecvs x hx)
  · -- there are no reads yet
    have hreads := hl.readPeers
    rw [hpc] at hreads
    rw [List.map_eq_nil_iff.mp hreads] at hx
    cases hx

/-- The key of the peer that a rank comes to is that of a buffer that the peer has filled. -/
theorem ReadRank.Sound.keySound (hl : l.Sound b i s) {t r : ℕ} (hpc : l.pc = .read t r)
    (hr : r < size) (hne : r ≠ i) : b.KeySound r i s (l.rmaReadKeys r) :=
  hl.rmaReadKeys (by rw [hpc]; trivial) (by rw [hpc]; exact mem_otherRanks.mpr ⟨hr, hne⟩)

/-- A rank posts a read. -/
theorem ReadRank.Sound.read (hl : l.Sound b i s) {t r : ℕ} (hpc : l.pc = .read t r)
    (ht : t < readIterations) (hr : r < size) (hne : r ≠ i) :
    ReadRank.Sound b i s { l with
      pc := .read t (r + 1), reads := l.reads ++ [⟨r, l.rmaReadKeys r, .writing []⟩] } := by
  have hkey := hl.keySound hpc hr hne
  have hhasKeys := hl.hasKeys
  have hpeers := hl.receivePeers
  have hallocated := hl.allocated
  have hreadPeers := hl.readPeers
  have hbounds := hl.pc
  rw [hpc] at hpeers hallocated hreadPeers hbounds hhasKeys
  refine ⟨⟨hbounds.1, hr, fun heq => absurd heq ht.ne⟩, hallocated, hpeers, hl.receives,
    hhasKeys, ?_, fun x hx => ?_, fun h => absurd h r.succ_ne_zero⟩
  · show (l.reads ++ [_]).map RemoteRead.peer = _
    rw [List.map_append, hreadPeers, ReadPc.readPeers, ReadPc.readPeers, otherRanks_succ,
      if_pos hne, List.append_assoc]
    rfl
  · rcases List.mem_append.mp hx with hx | hx
    · exact hl.reads x hx
    · rw [List.mem_singleton.mp hx]
      exact ⟨hkey, fun j hj => absurd hj List.not_mem_nil⟩

/-- A rank has waited for its reads. -/
theorem ReadRank.Sound.readsWaited (hl : l.Sound b i s) (hsize : size ≤ 2 ^ 24) {t : ℕ}
    (hpc : l.pc = .waitReads t)
    (hreads : ¬ BitVec.ofNat 32 (l.reads.countP RemoteRead.isComplete) <
      BitVec.ofNat 32 l.reads.length) :
    ReadRank.Sound b i s { l with pc := .read (t + 1) 0 } := by
  have hbounds := hl.pc
  have hlength := hl.length_reads_lt hsize hpc
  rw [hpc] at hbounds
  refine hl.advance _ ⟨hbounds, size.zero_le, fun _ => rfl⟩ (by rw [hpc]; rfl) (by rw [hpc]; rfl)
    (fun _ => hl.hasKeys (by rw [hpc]; trivial)) ?_
    fun _ => WrappingCounter.forall_of_not_ofNat_lt hlength hreads
  rw [hpc]
  exact List.append_nil _

/-- The key of a receive that has been matched is stored. -/
theorem ReadRank.Sound.recvComplete (hl : l.Sound b i s) {rs rs' : List ReadKeyReceive} {r : ℕ}
    {key : RmaKeyInfo} (hreceives : l.receives = rs ++ ⟨r, .matched key⟩ :: rs') :
    ReadRank.Sound b i s { l with
      receives := rs ++ ⟨r, .complete⟩ :: rs'
      rmaReadKeys := Function.update l.rmaReadKeys r key } := by
  have hkey : b.KeySound r i s key := hl.receives ⟨r, .matched key⟩ (by simp [hreceives])
  refine hl.replaceReceive hreceives (by simp) (fun z hz => ?_) ?_ (fun _ _ h => h) rfl
  · -- a receive for the same peer would have got the same key
    unfold ReadKeyReceive.Sound at hz ⊢
    split
    · trivial
    · next key' hprogress =>
      rw [hprogress] at hz
      exact hz
    · next hprogress =>
      rw [hprogress] at hz
      by_cases hpeer : z.peer = r
      · rw [hpeer, Function.update_self]
        exact hkey
      · rw [Function.update_of_ne hpeer]
        exact hz
  · show b.KeySound r i s (Function.update l.rmaReadKeys r key r)
    rw [Function.update_self]
    exact hkey

/-- A byte that is read by a right address is that of the peer's buffer. -/
theorem ReadNet.ByteAt.eq_rankByte {r j : ℕ} {a : Address} {byte : BitVec 8}
    (hbyte : s.ByteAt b r a byte) (hreached : b.Reached) (hi : i < size) (hj : j < messageSize)
    (htarget : b.target r (b.keyInfo r i)
      (b.remoteAddr (b.keyInfo r i) 0 + BitVec.ofNat 64 j) = some a)
    (hfilled : s.DataFilled r i) : byte = rankByte r := by
  rw [ExportedBuffers.remoteAddr_add, ExportedBuffers.target_keyInfo hreached] at htarget
  rw [hbyte i hi j hj (Option.some.inj htarget).symm]
  exact hfilled j hj

/-- A byte of a read is written. -/
theorem ReadRank.Sound.write (hl : l.Sound b i s) {xs xs' : List RemoteRead} {r j : ℕ}
    {key : RmaKeyInfo} {written : List ℕ}
    (hreads : l.reads = xs ++ ⟨r, key, .writing written⟩ :: xs')
    (hdata : ∀ r' k, s.DataFilled r' k → ReadNet.DataFilled
      { s with mem := s.mem.write (.read i r) j (rankByte r) } r' k) :
    ReadRank.Sound b i { s with mem := s.mem.write (.read i r) j (rankByte r) }
      { l with reads := xs ++ ⟨r, key, .writing (j :: written)⟩ :: xs' } := by
  obtain ⟨hkey, hwritten⟩ := hl.of_mem hreads
  -- it is the byte that every read from this peer writes
  have hstable (z : RemoteRead) (k : ℕ) (hk : s.mem (.read i z.peer) k = rankByte z.peer) :
      s.mem.write (.read i r) j (rankByte r) (.read i z.peer) k = rankByte z.peer := by
    rw [Buffers.write_eq]
    split
    · next heq =>
      obtain ⟨⟨⟩, -⟩ := heq
      rfl
    · exact hk
  refine hl.replaceRead hreads hdata (fun z hz => hz.mono hdata (hstable z))
    ⟨hkey.mono hdata, fun k hk => ?_⟩ (by simp [RemoteRead.isComplete])
  rcases List.mem_cons.mp hk with rfl | hk
  · exact (Buffers.write_eq ..).trans (if_pos ⟨rfl, rfl⟩)
  · exact hstable ⟨r, key, .writing written⟩ k (hwritten k hk)

/-- A rank knows what it knows after its own steps too. -/
theorem ReadTestStep.sound (h : ReadTestStep b i s l s' l') (hi : i < size)
    (hsize : size ≤ 2 ^ 24) (hreached : b.Reached) (hnet : s.Sound b) (hl : l.Sound b i s) :
    l'.Sound b i s' := by
  have hdata (r k : ℕ) : s.DataFilled r k → s'.DataFilled r k := h.dataFilled
  have hbounds := hl.pc
  cases h with
  | alloc hpc hr hinfo =>
    obtain rfl := Option.some.inj (ExportedBuffers.rmaKeyInfo_handle.symm.trans hinfo)
    exact hl.alloc hpc hr hdata
  | allocEnd hpc =>
    exact hl.advance _ size.zero_le (by rw [hpc]; rfl) (by rw [hpc]; rfl) False.elim
      (by rw [hpc]; rfl) False.elim
  | own hpc hi =>
    refine hl.advance _ hi (by rw [hpc]; rfl) ?_ False.elim (by rw [hpc]; rfl) False.elim
    rw [hpc, ReadPc.receivePeers, ReadPc.receivePeers, otherRanks_succ, if_neg (by simp),
      List.append_nil]
  | recv hpc hr hne => exact hl.recv hpc hr hne
  | @send _ _ r hpc =>
    have hadvance := hl.advance (.recv (r + 1)) (by rw [hpc] at hbounds; exact hbounds.1)
      (by rw [hpc]; rfl) (by rw [hpc]; rfl) False.elim (by rw [hpc]; rfl) False.elim
    exact { hadvance with }
  | exchangeEnd hpc =>
    exact hl.advance _ trivial (by rw [hpc]; rfl) (by rw [hpc]; rfl) False.elim (by rw [hpc]; rfl)
      False.elim
  | keysWaited hpc _ hrecvs => exact hl.keysWaited hsize hpc hrecvs
  | @readOwn _ _ t hpc ht hi =>
    rw [hpc] at hbounds
    refine hl.advance _ ⟨hbounds.1, hi, fun heq => absurd heq ht.ne⟩ (by rw [hpc]; rfl)
      (by rw [hpc]; rfl) (fun _ => hl.hasKeys (by rw [hpc]; trivial)) ?_
      fun h => absurd h i.succ_ne_zero
    rw [hpc, ReadPc.readPeers, ReadPc.readPeers, otherRanks_succ, if_neg (by simp),
      List.append_nil]
  | invalid hpc _ hr hne hlength =>
    -- the key is that of a buffer of the right length
    rw [(hl.keySound hpc hr hne).1] at hlength
    exact absurd rfl hlength
  | read hpc ht hr hne _ => exact hl.read hpc ht hr hne
  | readsPosted hpc ht =>
    refine hl.advance _ ht (by rw [hpc]; rfl) (by rw [hpc]; rfl)
      (fun _ => hl.hasKeys (by rw [hpc]; trivial)) ?_ False.elim
    rw [hpc, ReadPc.readPeers, ReadPc.readPeers, List.replicate_succ', List.flatten_append,
      List.flatten_singleton]
  | readsWaited hpc hreads => exact hl.readsWaited hsize hpc hreads
  | readsEnd hpc =>
    refine hl.advance _ trivial (by rw [hpc]; rfl) (by rw [hpc]; rfl)
      (fun _ => hl.hasKeys (by rw [hpc]; trivial)) ?_ fun _ => hl.hasWaited (by rw [hpc]; rfl)
    rw [hpc]
    exact (List.append_nil _).symm
  | sendComplete hposted => exact { hl with }
  | @matched mem pre post m _ rs rs' r hreceives hdst htag =>
    -- the tags are equal, and so the ranks are
    obtain ⟨hsrc, hkey⟩ := hnet m (by simp)
    have hr : r < size := hl.peer_lt (x := ⟨r, .posted⟩) (by simp [hreceives])
    obtain rfl := eq_of_exchange_tag hsize hsrc hr htag
    subst hdst
    exact hl.replaceReceive hreceives (by simp) (fun z hz => hz) hkey hdata rfl
  | recvComplete hreceives => exact hl.recvComplete hreceives
  | @write _ _ xs xs' r j key written a byte hreads _ hj htarget hbyte =>
    obtain ⟨hbuffer, hfilled⟩ : key = b.keyInfo r i ∧ s.DataFilled r i := (hl.of_mem hreads).1
    rw [hbuffer] at htarget
    obtain rfl := hbyte.eq_rankByte hreached hi hj htarget hfilled
    exact hl.write hreads hdata
  | @fail _ _ xs xs' r key written hreads hkey =>
    have hbuffer : key = b.keyInfo r i := (hl.of_mem hreads).1.1
    rw [hbuffer] at hkey
    exact absurd (ExportedBuffers.permits_keyInfo hreached) hkey
  | readComplete hreads hall =>
    obtain ⟨hkey, hwritten⟩ := hl.of_mem hreads
    exact hl.replaceRead hreads hdata (fun z hz => hz)
      ⟨hkey, fun j hj => hwritten j (hall j hj), Nat.zero_le _⟩ fun _ => rfl
  | verify hreads hverify =>
    obtain ⟨hkey, hfilled, -⟩ := hl.of_mem hreads
    exact hl.replaceRead hreads hdata (fun z hz => hz)
      ⟨hkey, hfilled, hverify.valid hfilled⟩ fun _ => rfl

/-- The keys in flight and what the ranks know are right in every run. -/
theorem sound_of_readTest (hsize : size ≤ 2 ^ 24) (hreached : b.Reached)
    (hc : (readTest b).Reachable c) :
    c.threads.length = size ∧ c.shared.Sound b ∧
      ∀ (i : ℕ) (l : ReadRank), c.threads[i]? = some l → l.Sound b i c.shared := by
  refine hc.invariant (I := fun c => c.threads.length = size ∧ c.shared.Sound b ∧
    ∀ (i : ℕ) (l : ReadRank), c.threads[i]? = some l → l.Sound b i c.shared) ?_ ?_
  · rintro ⟨s, ranks⟩ ⟨hnet, hlength, hranks⟩
    refine ⟨hlength, fun m hm => ?_, fun i l hget => ?_⟩
    · rw [hnet] at hm
      cases hm
    · obtain ⟨hpc, hreceives, -, -, hreads⟩ := hranks l (List.mem_of_getElem? hget)
      constructor <;> simp [hpc, hreceives, hreads, ReadPc.InBounds, ReadPc.allocated,
        ReadPc.receivePeers, ReadPc.readPeers]
  · rintro c _ - ⟨hlength, hnet, hranks⟩ ⟨i, hget, h⟩
    have hi : i < size := by
      rw [← hlength]
      exact (List.getElem?_eq_some_iff.mp hget).1
    refine ⟨List.length_set.trans hlength, h.net hi hnet (hranks i _ hget), fun k l hk => ?_⟩
    rcases ThreadSystem.getElem?_set_cases hk with ⟨rfl, rfl⟩ | ⟨hne, hk⟩
    · exact h.sound hi hsize hreached hnet (hranks k _ hget)
    · exact h.other hne (hranks k l hk)

end LibFatbat
