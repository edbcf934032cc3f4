import Mathlib
import LibFatbat.Collective.Buffers
import LibFatbat.Concurrent.ThreadSystem

/-!
# The iteration loops of the write tests

The loops over the iterations in `rdma-writedata-test` and `rdma-write-test`. In each iteration a
rank clears the buffers that its peers write into and writes to every peer; `rdma-writedata-test`
also installs a callback for the events that the writes of its peers generate, which goes out of
scope with the iteration. A fence ends the iteration, and nothing stands between the clearing and
the writes of the next one.

The ranks are the threads of a `ThreadSystem`; what they share is the network, and how many fences
each rank has entered. The steps of rank `i` are those of its main thread, those of its poller, and
the arrival of data in its memory. Data and events arrive at any time after the write was posted and
in any order, except that the event comes after the data where the provider supports
`FI_DELIVERY_COMPLETE`. Writes complete at their origin at any time after they were posted. Clearing
a buffer is one step, and so is the arrival of data. The keys exchanged before the loop are valid,
and so is the length in them.
-/

open Concurrent

namespace LibFatbat

/-- The two tests. -/
inductive WriteTest
  /-- `rdma-writedata-test`. -/
  | writedata
  /-- `rdma-write-test`. -/
  | write
  deriving DecidableEq

/-- A run of one of the tests. -/
structure IterationSetup where
  test : WriteTest
  /-- The number of ranks, which PMI reports as a `uint32_t`. -/
  size : ℕ
  size_lt : size < 2 ^ 32
  iterations : ℕ
  /-- `delivery_complete_supported`, once a rank has posted a write. -/
  deliveryComplete : Bool

/-! ### Immediate data -/

/-- `make_imm_data`. -/
def makeImmData (senderRank iteration : BitVec 64) : BitVec 64 :=
  ((senderRank &&& 0xFFFFFFFF#64) <<< 32) ||| (iteration &&& 0xFFFFFFFF#64)

/-- The sender that the callback reads. -/
def immSender (data : BitVec 64) : BitVec 64 := (data >>> 32) &&& 0xFFFFFFFF#64

/-- The iteration that the callback reads. -/
def immIteration (data : BitVec 64) : BitVec 64 := data &&& 0xFFFFFFFF#64

/-- A lower half is itself when it is the value of a 32-bit number. -/
private theorem and_mask_of_lt {n : ℕ} (hn : n < 2 ^ 32) :
    BitVec.ofNat 64 n &&& 0xFFFFFFFF#64 = BitVec.ofNat 64 n := by
  apply BitVec.eq_of_toNat_eq
  have hmask : n &&& 4294967295 = n % 2 ^ 32 := Nat.and_two_pow_sub_one_eq_mod n 32
  rw [BitVec.toNat_and, BitVec.toNat_ofNat, Nat.mod_eq_of_lt (by omega)]
  show n &&& 4294967295 = n
  rw [hmask, Nat.mod_eq_of_lt hn]

private theorem getLsbD_mask (i : ℕ) : (0xFFFFFFFF#64).getLsbD i = decide (i < 32) := by
  by_cases hi : i < 64
  · have hall : ∀ j : Fin 64, (0xFFFFFFFF#64).getLsbD j = decide (j.val < 32) := by decide
    exact hall ⟨i, hi⟩
  · rw [BitVec.getLsbD_of_ge _ _ (by omega)]
    simp only [Bool.false_eq, decide_eq_false_iff_not]
    omega

/-- The callback reads the sender's rank. -/
theorem immSender_makeImmData {sender : ℕ} (hsender : sender < 2 ^ 32) (iteration : BitVec 64) :
    immSender (makeImmData (BitVec.ofNat 64 sender) iteration) = BitVec.ofNat 64 sender := by
  rw [immSender, makeImmData, ← and_mask_of_lt hsender]
  apply BitVec.eq_of_getLsbD_eq
  intro i hi
  simp only [BitVec.getLsbD_and, BitVec.getLsbD_ushiftRight, BitVec.getLsbD_or,
    BitVec.getLsbD_shiftLeft, getLsbD_mask]
  by_cases hlow : i < 32
  · simp [hlow, show 32 + i < 64 by omega]
  · simp [hlow]

/-- The callback reads the iteration, if it has 32 bits. -/
theorem immIteration_makeImmData (sender : BitVec 64) {iteration : ℕ}
    (hiteration : iteration < 2 ^ 32) :
    immIteration (makeImmData sender (BitVec.ofNat 64 iteration)) = BitVec.ofNat 64 iteration := by
  rw [immIteration, makeImmData, ← and_mask_of_lt hiteration]
  apply BitVec.eq_of_getLsbD_eq
  intro i hi
  simp only [BitVec.getLsbD_and, BitVec.getLsbD_or, BitVec.getLsbD_shiftLeft, getLsbD_mask]
  by_cases hlow : i < 32
  · simp [hlow]
  · simp [hlow]

/-! ### The ranks -/

/-- What is on its way between two ranks: the two parts of a write of an iteration. -/
inductive Flight
  /-- The data. -/
  | data (src dst iteration : ℕ)
  /-- The remote CQ data event. -/
  | event (src dst iteration : ℕ)
  deriving DecidableEq

/-- What the ranks share. -/
structure IterationShared where
  net : List Flight
  /-- How many fences each rank has entered. -/
  arrived : ℕ → ℕ

/-- What a target buffer holds. -/
inductive BufferContent
  /-- `0xEE` in all bytes. -/
  | cleared
  /-- What the peer wrote in an iteration. -/
  | data (iteration : ℕ)
  deriving DecidableEq

/-- The byte that a rank writes. -/
def WriteTest.pattern (test : WriteTest) (src : ℕ) : BitVec 8 :=
  match test with
  | .writedata => BitVec.ofNat 8 src
  | .write => BitVec.ofNat 8 (src + 17)

/-- The bytes in the buffer that rank `src` writes into. -/
def BufferContent.byte (test : WriteTest) (src : ℕ) : BufferContent → BitVec 8
  | .cleared => 0xEE#8
  | .data _ => test.pattern src

/-- A call of `handle_remote_cq_data_completion_impl`. -/
structure HandledEvent where
  /-- The rank whose write generated the event, and the iteration of the write. -/
  src : ℕ
  iteration : ℕ
  /-- The iteration whose callback was called, unless none was installed. -/
  callback : Option ℕ
  /-- The callback put the sender into `seen_senders`. -/
  recorded : Bool
  deriving DecidableEq

/-- A call of `std::fill` that clears a target buffer. -/
structure ClearedBuffer where
  /-- The rank that writes into the buffer. -/
  src : ℕ
  /-- The iteration in which it is cleared. -/
  iteration : ℕ
  /-- What was in it. -/
  found : BufferContent
  deriving DecidableEq

/-- Where the main thread of a rank is. -/
inductive IterationPc
  /-- At the loop condition. -/
  | begin
  /-- At the clearing of buffer `r`. -/
  | clear (r : ℕ)
  /-- At the write to rank `r`. -/
  | post (r : ℕ)
  /-- In `wait_for_write_completions`. -/
  | waitWrites
  /-- In `wait_for_counter`. -/
  | waitEvents
  /-- At the entry of a fence, which is or is not the one that ends the iteration. -/
  | fence (last : Bool)
  /-- In the fence. -/
  | inFence (last : Bool)
  /-- At the check of `seen_senders`. -/
  | check
  /-- Waiting for the data of all peers to be visible. -/
  | waitBuffers
  /-- At the calls of `verify_buffer`. -/
  | verify
  /-- Out of the loop. -/
  | done
  /-- `main` has returned with an error, or an exception has left it. -/
  | failed
  deriving DecidableEq

/-- A rank. -/
structure IterationRank where
  pc : IterationPc
  /-- `it`. -/
  iteration : ℕ
  /-- The iteration whose callback `remote_cq_data_callback_` is. -/
  callback : Option ℕ
  /-- `seen_senders`, `remote_cq_data_ok` and `remote_cq_data_processed` of the iteration. -/
  seenSenders : List ℕ
  dataOk : Bool
  processed : ℕ
  /-- `rma_target_buffers`. -/
  buffers : ℕ → BufferContent
  writesPosted : ℕ
  writesComplete : ℕ
  /-- The events handled so far. -/
  handled : List HandledEvent
  /-- The buffers cleared in the loop so far. -/
  clears : List ClearedBuffer

/-- A rank before the loop. -/
def IterationRank.start : IterationRank where
  pc := .begin
  iteration := 0
  callback := none
  seenSenders := []
  dataOk := true
  processed := 0
  buffers _ := .cleared
  writesPosted := 0
  writesComplete := 0
  handled := []
  clears := []

/-- `main` is left early, and the callback goes out of scope. -/
def IterationRank.fail (l : IterationRank) : IterationRank :=
  { l with pc := .failed, callback := none }

/-- The beginning of an iteration: `rdma-writedata-test` installs its callback. -/
def IterationRank.install (l : IterationRank) : WriteTest → IterationRank
  | .writedata =>
    { l with pc := .clear 0, callback := some l.iteration, seenSenders := [], dataOk := true,
             processed := 0 }
  | .write => { l with pc := .clear 0 }

/-- Buffer `r` is cleared. -/
def IterationRank.clear (l : IterationRank) (r : ℕ) : IterationRank :=
  { l with pc := .clear (r + 1), buffers := Function.update l.buffers r .cleared,
           clears := l.clears ++ [⟨r, l.iteration, l.buffers r⟩] }

/-- What a write to rank `r` sends. -/
def WriteTest.flights (test : WriteTest) (i r iteration : ℕ) : List Flight :=
  match test with
  | .writedata => [.data i r iteration, .event i r iteration]
  | .write => [.data i r iteration]

/-- Whether the callback of iteration `k` of rank `i` accepts an event. -/
def callbackAccepts (size i k : ℕ) (data : BitVec 64) : Bool :=
  immIteration data = BitVec.ofNat 64 (k + 1) && (immSender data).toNat < size &&
    (immSender data).toNat ≠ i

/-- `handle_remote_cq_data_completion_impl`, for the event that a write of rank `src` generates. -/
def IterationRank.handle (l : IterationRank) (size i src iteration : ℕ) : IterationRank :=
  let data := makeImmData (BitVec.ofNat 64 src) (BitVec.ofNat 64 (iteration + 1))
  match l.callback with
  | none => { l with handled := l.handled ++ [⟨src, iteration, none, false⟩] }
  | some k =>
    let dataOk := l.dataOk && callbackAccepts size i k data
    { l with dataOk
             seenSenders :=
               if dataOk then l.seenSenders.insert (immSender data).toNat else l.seenSenders
             processed := l.processed + 1
             handled := l.handled ++ [⟨src, iteration, some k, dataOk⟩] }

/-- The buffers of all peers hold what the peers write. -/
def IterationRank.AllVisible (l : IterationRank) (cfg : IterationSetup) (i : ℕ) : Prop :=
  ∀ r < cfg.size, r ≠ i → (l.buffers r).byte cfg.test r = cfg.test.pattern r

/-- The steps of rank `i`. -/
inductive IterationStep (cfg : IterationSetup) (i : ℕ) :
    IterationShared → IterationRank → IterationShared → IterationRank → Prop
  -- The loop over the iterations.
  | begin {s : IterationShared} {l : IterationRank} (hpc : l.pc = .begin)
      (hloop : l.iteration < cfg.iterations) : IterationStep cfg i s l s (l.install cfg.test)
  | finish {s : IterationShared} {l : IterationRank} (hpc : l.pc = .begin)
      (hloop : ¬l.iteration < cfg.iterations) : IterationStep cfg i s l s { l with pc := .done }
  -- The target buffers of the peers are cleared, one after the other.
  | skipClear {s : IterationShared} {l : IterationRank} (hpc : l.pc = .clear i)
      (hi : i < cfg.size) : IterationStep cfg i s l s { l with pc := .clear (i + 1) }
  | clear {s : IterationShared} {l : IterationRank} {r : ℕ} (hpc : l.pc = .clear r)
      (hr : r < cfg.size) (hne : r ≠ i) : IterationStep cfg i s l s (l.clear r)
  | clearEnd {s : IterationShared} {l : IterationRank} (hpc : l.pc = .clear cfg.size) :
      IterationStep cfg i s l s { l with pc := .post 0 }
  -- One write to each peer.
  | skipPost {s : IterationShared} {l : IterationRank} (hpc : l.pc = .post i) (hi : i < cfg.size) :
      IterationStep cfg i s l s { l with pc := .post (i + 1) }
  | post {s : IterationShared} {l : IterationRank} {r : ℕ} (hpc : l.pc = .post r)
      (hr : r < cfg.size) (hne : r ≠ i) :
      IterationStep cfg i s l { s with net := s.net ++ cfg.test.flights i r l.iteration }
        { l with pc := .post (r + 1), writesPosted := l.writesPosted + 1 }
  | postEnd {s : IterationShared} {l : IterationRank} (hpc : l.pc = .post cfg.size) :
      IterationStep cfg i s l s { l with pc := .waitWrites }
  -- The poller counts the completion of a write.
  | writeComplete {s : IterationShared} {l : IterationRank}
      (hposted : l.writesComplete < l.writesPosted) :
      IterationStep cfg i s l s { l with writesComplete := l.writesComplete + 1 }
  -- `wait_for_write_completions` returns.
  | writesDone {s : IterationShared} {l : IterationRank} (hpc : l.pc = .waitWrites)
      (hwrites : l.writesPosted ≤ l.writesComplete) :
      IterationStep cfg i s l s
        { l with pc := match cfg.test with
                  | .writedata => .waitEvents
                  | .write => .waitBuffers }
  -- `wait_for_counter` returns, and `remote_cq_data_ok` is checked.
  | eventsDone {s : IterationShared} {l : IterationRank} (htest : cfg.test = .writedata)
      (hpc : l.pc = .waitEvents) (hevents : cfg.size - 1 ≤ l.processed) :
      IterationStep cfg i s l s (if l.dataOk then { l with pc := .fence false } else l.fail)
  | enterFence {s : IterationShared} {l : IterationRank} {last : Bool} (hpc : l.pc = .fence last) :
      IterationStep cfg i s l
        { s with arrived := Function.update s.arrived i (s.arrived i + 1) }
        { l with pc := .inFence last }
  | leaveFence {s : IterationShared} {l : IterationRank} (hpc : l.pc = .inFence false)
      (hall : ∀ r < cfg.size, s.arrived i ≤ s.arrived r) :
      IterationStep cfg i s l s { l with pc := .check }
  /-- The last fence ends the iteration, and the callback goes out of scope. -/
  | next {s : IterationShared} {l : IterationRank} (hpc : l.pc = .inFence true)
      (hall : ∀ r < cfg.size, s.arrived i ≤ s.arrived r) :
      IterationStep cfg i s l s
        { l with pc := .begin, iteration := l.iteration + 1, callback := none }
  | check {s : IterationShared} {l : IterationRank} (hpc : l.pc = .check) :
      IterationStep cfg i s l s
        (if l.seenSenders.length = cfg.size - 1 then
          { l with pc := if cfg.deliveryComplete then .verify else .waitBuffers }
        else l.fail)
  | visible {s : IterationShared} {l : IterationRank} (hpc : l.pc = .waitBuffers)
      (hall : l.AllVisible cfg i) : IterationStep cfg i s l s { l with pc := .verify }
  /-- Ten seconds have passed. -/
  | timeout {s : IterationShared} {l : IterationRank} (hpc : l.pc = .waitBuffers) :
      IterationStep cfg i s l s l.fail
  | verified {s : IterationShared} {l : IterationRank} (hpc : l.pc = .verify)
      (hall : l.AllVisible cfg i) : IterationStep cfg i s l s { l with pc := .fence true }
  | notVerified {s : IterationShared} {l : IterationRank} (hpc : l.pc = .verify)
      (hall : ¬l.AllVisible cfg i) : IterationStep cfg i s l s l.fail
  /-- Data arrives in a buffer. -/
  | place {pre post : List Flight} {arrived : ℕ → ℕ} {l : IterationRank} {src k : ℕ} :
      IterationStep cfg i ⟨pre ++ .data src i k :: post, arrived⟩ l ⟨pre ++ post, arrived⟩
        { l with buffers := Function.update l.buffers src (.data k) }
  /-- The poller handles an event. -/
  | handle {pre post : List Flight} {arrived : ℕ → ℕ} {l : IterationRank} {src k : ℕ}
      (hplaced : cfg.deliveryComplete = true → .data src i k ∉ pre ++ post) :
      IterationStep cfg i ⟨pre ++ .event src i k :: post, arrived⟩ l ⟨pre ++ post, arrived⟩
        (l.handle cfg.size i src k)

/-- The ranks of a job. -/
def iterationLoop (cfg : IterationSetup) : ThreadSystem IterationShared IterationRank where
  init c := c.shared = ⟨[], fun _ => 0⟩ ∧ c.threads = List.replicate cfg.size .start
  step := IterationStep cfg

end LibFatbat
