import LibFatbat.Communicator.Machine
import LibFatbat.Program.Return

/-!
# The polling functions

`poll_send_queue_default`, `poll_recv_queue_default` and the loop of `poll_for_work_completions`
as functions of what the calls to libfabric return, with `libfabric_completions_per_poll`, which
reads the number of entries to ask for from the environment. The handlers are those of
`operation_context`, which return 1.

The machine of `LibFatbat.Communicator.Machine` has these functions too, one step at a time and
with other threads in between; there a completion is always one that libfabric documents. Here the
entries of a batch are arbitrary, which is what the return values depend on.

Main results: `processEntries_ok`, `pollSendQueueDefault_ok` and `pollRecvQueueDefault_ok`, which
say what the functions return and which handlers they run.
-/

namespace LibFatbat

/-! ### The number of entries to ask for -/

/-- `isspace` in the "C" locale. -/
def isSpace (c : Char) : Bool := c.toNat = 32 || (9 ≤ c.toNat && c.toNat ≤ 13)

/-- The value of the digits that a list of characters begins with. -/
def leadingDigits (cs : List Char) : ℕ :=
  (cs.takeWhile Char.isDigit).foldl (fun n c => 10 * n + (c.toNat - 48)) 0

/-- `strtol` in base 10: it stops at the first character that is not part of the number, is 0 when
there is none, and is the nearest `long` when the number is out of range. -/
def strtol (s : String) : ℤ :=
  match s.toList.dropWhile isSpace with
  | '-' :: cs => max (-2 ^ 63) (-(leadingDigits cs : ℤ))
  | '+' :: cs => min (2 ^ 63 - 1) (leadingDigits cs)
  | cs => min (2 ^ 63 - 1) (leadingDigits cs)

/-- `atoi` as the C library of GNU has it: the `long` is converted to `int`. -/
def atoi (s : String) : BitVec 32 := BitVec.ofInt 32 (strtol s)

/-- `libfabric_completions_per_poll`, given the value of `LIBFABRIC_POLL_SIZE`. `atoi` throws
nothing, so the handler is never reached. -/
def libfabricCompletionsPerPoll : Option String → BitVec 32
  | some s => atoi s
  | none => 4#32

/-! ### Completions -/

/-- A completion queue. -/
inductive Queue
  | tx
  | rx
  deriving DecidableEq

/-- What the polling functions use of a `fi_cq_tagged_entry`. -/
structure CqEntry where
  flags : BitVec 64
  /-- `op_context`, unless it is null. -/
  opContext : Option ℕ
  data : BitVec 64
  deriving DecidableEq

/-- What the polling functions use of a `fi_cq_err_entry`. -/
structure CqErrEntry where
  opContext : Option ℕ
  err : ℤ
  deriving DecidableEq

def fiEcanceled : ℤ := 125

/-- What a call of `fi_cq_read` returns. -/
inductive CqRead
  /-- The number of entries, and the entries. -/
  | entries (es : List CqEntry)
  /-- `-FI_EAVAIL`, and what `fi_cq_readerr` then returns. -/
  | eavail (e : CqErrEntry)
  /-- `-FI_EAGAIN`: there is no entry. -/
  | again
  /-- Another error. -/
  | failed
  deriving DecidableEq

/-- The entries read. -/
def CqRead.batch : CqRead → List CqEntry
  | .entries es => es
  | .eavail _ | .again | .failed => []

/-- No error is read. -/
def CqRead.Clean : CqRead → Prop
  | .entries _ | .again => True
  | .eavail _ | .failed => False

/-- The handlers of `operation_context`. -/
inductive Handler
  | taggedSend
  | taggedRecv
  | rmaRead
  | rmaWrite
  | cancelled
  deriving DecidableEq

/-- The handler for the completion of an operation. -/
def Kind.handler : Kind → Handler
  | .send => .taggedSend
  | .recv => .taggedRecv
  | .read => .rmaRead
  | .write => .rmaWrite

/-- A handler that was run: for which queue, and on which context. -/
structure Ran where
  queue : Queue
  handler : Handler
  context : ℕ
  deriving DecidableEq

/-- What polling changes. -/
structure PollState where
  /-- `sends_complete_`, `recvs_complete_`, `reads_complete_` and `writes_complete_`. -/
  complete : Kind → BitVec 32
  /-- `remote_cq_data_received_`. -/
  remoteCqDataReceived : BitVec 32
  /-- The handlers run, in order. -/
  ran : List Ran
  /-- The values passed to `handle_remote_cq_data_completion`, in order. -/
  remoteData : List (BitVec 64)

/-- The state of a fresh controller. -/
def PollState.start : PollState := ⟨fun _ => 0#32, 0#32, [], []⟩

/-- The ways in which polling ends other than by returning. -/
inductive Stop
  /-- `std::terminate`. -/
  | terminate
  /-- A member function is called on a null context. -/
  | nullContext
  /-- `handle_error` makes a `fabric_error`, whose constructor terminates. -/
  | fabricError
  /-- An assertion fails. -/
  | assertion
  /-- libfabric writes past the end of the array of entries. -/
  | overflow
  deriving DecidableEq

/-- Code that polls. -/
abbrev Poll := EStateM Stop PollState

/-- What polling depends on. -/
structure PollSetup extends Setup where
  /-- Whether `NDEBUG` is not defined. -/
  assertions : Bool

/-- The test controller of a default build, once it has read an environment without
`LIBFABRIC_POLL_SIZE`. -/
def PollSetup.test : PollSetup where
  provider := .other
  threading := .safe
  endpointType := .threadlocalTx
  disableFiInject := false
  txInjectSize := 64
  maxCompletionsPerPoll := 4
  assertions := true

/-- `max_completions_array_limit_`. -/
def maxCompletionsArrayLimit : ℕ := 256

/-- Whether the assertion on `max_completions_per_poll_` fails. -/
def PollSetup.assertFails (cfg : PollSetup) : Bool :=
  cfg.assertions && maxCompletionsArrayLimit < cfg.maxCompletionsPerPoll

/-- The increment of a complete counter. -/
def countComplete (kind : Kind) : Poll Unit :=
  modify fun s => { s with complete := Function.update s.complete kind (s.complete kind + 1#32) }

/-- A call of a handler of `operation_context`. -/
def runHandler (queue : Queue) (handler : Handler) : Option ℕ → Poll ℤ
  | none => throw .nullContext
  | some c => do
    modify fun s => { s with ran := s.ran ++ [⟨queue, handler, c⟩] }
    return 1

/-- The body of the loop of `poll_send_queue_default`: what is added to `processed`. -/
def sendEntry (e : CqEntry) : Poll ℤ :=
  match classifyTx e.flags with
  | some .send => do
    countComplete .send
    runHandler .tx .taggedSend e.opContext
  | some .read => do
    countComplete .read
    runHandler .tx .rmaRead e.opContext
  | some .write => do
    countComplete .write
    -- The other branches call the handler without looking at the pointer.
    match e.opContext with
    | none => return 0
    | some c => runHandler .tx .rmaWrite (some c)
  | some .recv | none => throw .terminate

/-- The body of the loop of `poll_recv_queue_default`: what is added to `processed`. -/
def recvEntry (e : CqEntry) : Poll ℤ :=
  match classifyRx e.flags with
  | some (some _) => do
    countComplete .recv
    runHandler .rx .taggedRecv e.opContext
  | some none => do
    modify fun s => { s with remoteCqDataReceived := s.remoteCqDataReceived + 1#32
                             remoteData := s.remoteData ++ [e.data] }
    return 0
  | none => throw .terminate

/-- The loop over the entries of a batch. -/
def processEntries (entry : CqEntry → Poll ℤ) : List CqEntry → ℤ → Poll ℤ
  | [], processed => return processed
  | e :: es, processed => do
    let n ← entry e
    processEntries entry es (processed + n)

/-- `poll_send_queue_default`, given whether `try_tx_lock` gets the lock and what `fi_cq_read`
returns. -/
def pollSendQueueDefault (cfg : PollSetup) (lock : Bool) (read : CqRead) : Poll ℤ :=
  if cfg.assertFails then throw .assertion
  -- Another thread is polling now.
  else if !cfg.bypassTxLock && !lock then return -1
  else
    match read with
    | .eavail e =>
      match e.opContext with
      | some _ => throw .fabricError
      | none => return 0
    | .entries es =>
      if maxCompletionsArrayLimit < es.length then throw .overflow
      else processEntries sendEntry es 0
    | .again => return 0
    | .failed => return 0

/-- `poll_recv_queue_default`. `get_rx_lock` waits for the lock, so a lock that is needed is always
owned. -/
def pollRecvQueueDefault (cfg : PollSetup) (read : CqRead) : Poll ℤ :=
  if cfg.assertFails then throw .assertion
  else
    match read with
    | .eavail e =>
      if e.err = fiEcanceled then do
        -- What `handle_cancelled` returns is dropped.
        let _ ← runHandler .rx .cancelled e.opContext
        return 0
      else
        match e.opContext with
        | some _ => throw .fabricError
        | none => return 0
    | .entries es =>
      if maxCompletionsArrayLimit < es.length then throw .overflow
      else processEntries recvEntry es 0
    | .again => return 0
    | .failed => return 0

/-! ### The loop -/

/-- `progress_status`. -/
structure ProgressStatus where
  mNumSends : BitVec 32
  mNumRecvs : BitVec 32
  deriving DecidableEq

namespace ProgressStatus

/-- `num_sends`. -/
def numSends (p : ProgressStatus) : ℤ := p.mNumSends.toInt

/-- `num_recvs`. -/
def numRecvs (p : ProgressStatus) : ℤ := p.mNumRecvs.toInt

end ProgressStatus

/-- What an iteration of the loop meets. -/
structure Round where
  /-- Whether `try_tx_lock` gets the lock, when it is needed. -/
  lock : Bool
  tx : CqRead
  rx : CqRead
  deriving DecidableEq

/-- The body of the loop of `poll_for_work_completions`: `p` and `retry` after it. A status is
converted to `uint32_t` before it is added. -/
def pollIteration (cfg : PollSetup) (p : ProgressStatus) (r : Round) :
    Poll (ProgressStatus × Bool) := do
  let nsend ← pollSendQueueDefault cfg r.lock r.tx
  let nrecv ← pollRecvQueueDefault cfg r.rx
  return ({ mNumSends := p.mNumSends + BitVec.ofInt 32 nsend
            mNumRecvs := p.mNumRecvs + BitVec.ofInt 32 nrecv },
    cfg.full nsend || cfg.full nrecv)

/-- The loop of `poll_for_work_completions`: `p` when it is left, and the rounds that are left over;
`none` when it is not left within the rounds given. -/
def pollLoop (cfg : PollSetup) (p : ProgressStatus) :
    List Round → Poll (Option (ProgressStatus × List Round))
  | [] => return none
  | r :: rs => do
    let (p', retry) ← pollIteration cfg p r
    if retry then pollLoop cfg p' rs else return some (p', rs)

/-- `poll_for_work_completions`. -/
def pollForWorkCompletions (cfg : PollSetup) (rounds : List Round) :
    Poll (Option (ProgressStatus × List Round)) :=
  pollLoop cfg ⟨0#32, 0#32⟩ rounds

/-! ### What the functions do when they return -/

/-- A handler that returns was run on a context that is not null, and returns 1. -/
theorem runHandler_ok {queue : Queue} {handler : Handler} {ctx : Option ℕ} {n : ℤ}
    {s s' : PollState} : runHandler queue handler ctx s = .ok n s' ↔
      ∃ c, ctx = some c ∧ n = 1 ∧ s' = { s with ran := s.ran ++ [⟨queue, handler, c⟩] } := by
  cases ctx with
  | none => simp [runHandler, Program.throw_ok]
  | some c =>
    simp only [runHandler, Program.bind_ok, Program.modify_ok, Program.pure_ok, Option.some.injEq]
    constructor
    · rintro ⟨_, t, rfl, rfl, rfl⟩
      exact ⟨c, rfl, rfl, rfl⟩
    · rintro ⟨-, rfl, rfl, rfl⟩
      exact ⟨(), _, rfl, rfl, rfl⟩

/-- The handlers that an entry of the transmit queue runs. -/
def CqEntry.sendRan (e : CqEntry) : List Ran :=
  match classifyTx e.flags, e.opContext with
  | some kind, some c => [⟨.tx, kind.handler, c⟩]
  | _, _ => []

/-- The handlers that an entry of the receive queue runs. -/
def CqEntry.recvRan (e : CqEntry) : List Ran :=
  match classifyRx e.flags, e.opContext with
  | some (some _), some c => [⟨.rx, .taggedRecv, c⟩]
  | _, _ => []

/-- An entry of the transmit queue that is handled: only a write may come without a context. -/
def CqEntry.SendHandled (e : CqEntry) : Prop :=
  ∃ kind, classifyTx e.flags = some kind ∧ (e.opContext = none → kind = .write)

/-- An entry of the receive queue that is handled: a receive does not come without a context. -/
def CqEntry.RecvHandled (e : CqEntry) : Prop :=
  ∃ kind?, classifyRx e.flags = some kind? ∧ (e.opContext = none → kind? = none)

/-- The state after the completion of an operation is counted and its handlers are run. -/
def PollState.finish (s : PollState) (kind : Kind) (ran : List Ran) : PollState :=
  { s with complete := Function.update s.complete kind (s.complete kind + 1#32)
           ran := s.ran ++ ran }

/-- An entry of the transmit queue counts the operation that its flags are taken for, and runs the
handler for it unless it is a write without a context. -/
theorem sendEntry_ok {e : CqEntry} {n : ℤ} {s s' : PollState} (h : sendEntry e s = .ok n s') :
    ∃ kind, classifyTx e.flags = some kind ∧ (e.opContext = none → kind = .write) ∧
      n = e.sendRan.length ∧ s' = s.finish kind e.sendRan := by
  unfold sendEntry at h
  cases hkind : classifyTx e.flags with
  | none =>
    simp only [hkind] at h
    exact absurd h Program.throw_ok.mp
  | some kind =>
    refine ⟨kind, rfl, ?_⟩
    cases kind with
    | send =>
      simp only [hkind] at h
      obtain ⟨_, t, ht, hrun⟩ := Program.bind_ok.mp h
      obtain ⟨c, hc, rfl, rfl⟩ := runHandler_ok.mp hrun
      obtain rfl := Program.modify_ok.mp ht
      simp [CqEntry.sendRan, hkind, hc, Kind.handler, PollState.finish]
    | recv =>
      simp only [hkind] at h
      exact absurd h Program.throw_ok.mp
    | read =>
      simp only [hkind] at h
      obtain ⟨_, t, ht, hrun⟩ := Program.bind_ok.mp h
      obtain ⟨c, hc, rfl, rfl⟩ := runHandler_ok.mp hrun
      obtain rfl := Program.modify_ok.mp ht
      simp [CqEntry.sendRan, hkind, hc, Kind.handler, PollState.finish]
    | write =>
      simp only [hkind] at h
      obtain ⟨_, t, ht, hrun⟩ := Program.bind_ok.mp h
      obtain rfl := Program.modify_ok.mp ht
      -- The null check that only this branch has.
      cases hc : e.opContext with
      | none =>
        simp only [hc] at hrun
        obtain ⟨rfl, rfl⟩ := Program.pure_ok.mp hrun
        simp [CqEntry.sendRan, hkind, hc, PollState.finish]
      | some c =>
        simp only [hc] at hrun
        obtain ⟨c', hc', rfl, rfl⟩ := runHandler_ok.mp hrun
        obtain rfl := Option.some.inj hc'
        simp [CqEntry.sendRan, hkind, hc, Kind.handler, PollState.finish]

/-- What an entry of the transmit queue adds to `processed` is the number of handlers it runs. -/
theorem sendEntry_ran (e : CqEntry) (n : ℤ) (s s' : PollState) (h : sendEntry e s = .ok n s') :
    e.SendHandled ∧ n = e.sendRan.length ∧ s'.ran = s.ran ++ e.sendRan := by
  obtain ⟨kind, hkind, hwrite, rfl, rfl⟩ := sendEntry_ok h
  exact ⟨⟨kind, hkind, hwrite⟩, rfl, rfl⟩

/-- What an entry of the receive queue adds to `processed` is the number of handlers it runs. -/
theorem recvEntry_ran (e : CqEntry) (n : ℤ) (s s' : PollState) (h : recvEntry e s = .ok n s') :
    e.RecvHandled ∧ n = e.recvRan.length ∧ s'.ran = s.ran ++ e.recvRan := by
  unfold recvEntry at h
  cases hclass : classifyRx e.flags with
  | none =>
    simp only [hclass] at h
    exact absurd h Program.throw_ok.mp
  | some kind? =>
    cases kind? with
    | some kind =>
      simp only [hclass] at h
      obtain ⟨_, t, ht, hrun⟩ := Program.bind_ok.mp h
      obtain ⟨c, hc, rfl, rfl⟩ := runHandler_ok.mp hrun
      obtain rfl := Program.modify_ok.mp ht
      simp [CqEntry.RecvHandled, CqEntry.recvRan, hclass, hc]
    | none =>
      simp only [hclass] at h
      obtain ⟨_, t, ht, hret⟩ := Program.bind_ok.mp h
      obtain ⟨rfl, rfl⟩ := Program.pure_ok.mp hret
      obtain rfl := Program.modify_ok.mp ht
      simp [CqEntry.RecvHandled, CqEntry.recvRan, hclass]

/-- A batch runs the handlers of its entries in order, and adds their number to `processed`. -/
theorem processEntries_ok {entry : CqEntry → Poll ℤ} {ran : CqEntry → List Ran}
    {Handled : CqEntry → Prop}
    (hentry : ∀ (e : CqEntry) (n : ℤ) (s s' : PollState), entry e s = .ok n s' →
      Handled e ∧ n = (ran e).length ∧ s'.ran = s.ran ++ ran e)
    {es : List CqEntry} {processed n : ℤ} {s s' : PollState}
    (h : processEntries entry es processed s = .ok n s') :
    (∀ e ∈ es, Handled e) ∧ n = processed + (es.flatMap ran).length ∧
      s'.ran = s.ran ++ es.flatMap ran := by
  induction es generalizing processed s with
  | nil =>
    obtain ⟨rfl, rfl⟩ := Program.pure_ok.mp h
    simp
  | cons e es ih =>
    obtain ⟨m, t, he, hes⟩ := Program.bind_ok.mp h
    obtain ⟨hhandled, rfl, hran⟩ := hentry e m s t he
    obtain ⟨hall, rfl, hrest⟩ := ih hes
    rw [hrest, hran]
    refine ⟨List.forall_mem_cons.mpr ⟨hhandled, hall⟩, ?_, ?_⟩
    · simp [List.flatMap_cons, add_assoc]
    · rw [List.flatMap_cons, List.append_assoc]

namespace Round

/-- `try_tx_lock` is needed and does not get the lock. -/
def busy (cfg : PollSetup) (r : Round) : Bool := !cfg.bypassTxLock && !r.lock

/-- The entries that the transmit queue gives up. -/
def sent (cfg : PollSetup) (r : Round) : List CqEntry := if r.busy cfg then [] else r.tx.batch

/-- The completion handlers that a round runs for the transmit queue. -/
def sends (cfg : PollSetup) (r : Round) : List Ran := (r.sent cfg).flatMap CqEntry.sendRan

/-- The completion handlers that a round runs for the receive queue. -/
def recvs (r : Round) : List Ran := r.rx.batch.flatMap CqEntry.recvRan

/-- `handle_cancelled`, when a round runs it. -/
def cancels (r : Round) : List Ran :=
  match r.rx with
  | .eavail ⟨some c, err⟩ => if err = fiEcanceled then [⟨.rx, .cancelled, c⟩] else []
  | _ => []

end Round

/-- `poll_send_queue_default` returns the number of handlers it ran, or -1 when the lock is busy. -/
theorem pollSendQueueDefault_ok {cfg : PollSetup} {r : Round} {n : ℤ} {s s' : PollState}
    (h : pollSendQueueDefault cfg r.lock r.tx s = .ok n s') :
    (∀ e ∈ r.sent cfg, e.SendHandled) ∧
      n = (if r.busy cfg then -1 else ((r.sends cfg).length : ℤ)) ∧
      s'.ran = s.ran ++ r.sends cfg := by
  unfold pollSendQueueDefault at h
  by_cases hassert : cfg.assertFails = true
  · rw [if_pos hassert] at h
    exact absurd h Program.throw_ok.mp
  rw [if_neg hassert, show (!cfg.bypassTxLock && !r.lock) = r.busy cfg from rfl] at h
  by_cases hbusy : r.busy cfg = true
  · rw [if_pos hbusy] at h
    obtain ⟨rfl, rfl⟩ := Program.pure_ok.mp h
    -- another thread is polling, and nothing is read
    simp [Round.sends, Round.sent, hbusy]
  rw [if_neg hbusy] at h
  rw [if_neg hbusy, Round.sends, Round.sent, if_neg hbusy]
  cases htx : r.tx with
  | entries es =>
    simp only [htx] at h
    by_cases hlen : maxCompletionsArrayLimit < es.length
    · rw [if_pos hlen] at h
      exact absurd h Program.throw_ok.mp
    rw [if_neg hlen] at h
    have hbatch := processEntries_ok sendEntry_ran h
    rwa [zero_add] at hbatch
  | eavail e =>
    -- an error entry with a context ends in an exception
    cases hc : e.opContext with
    | some c =>
      simp only [htx, hc] at h
      exact absurd h Program.throw_ok.mp
    | none =>
      simp only [htx, hc] at h
      obtain ⟨rfl, rfl⟩ := Program.pure_ok.mp h
      simp [CqRead.batch]
  | again | failed =>
    simp only [htx] at h
    obtain ⟨rfl, rfl⟩ := Program.pure_ok.mp h
    simp [CqRead.batch]

/-- `poll_recv_queue_default` returns the number of completion handlers it ran. `handle_cancelled`
is not among them. -/
theorem pollRecvQueueDefault_ok {cfg : PollSetup} {r : Round} {n : ℤ} {s s' : PollState}
    (h : pollRecvQueueDefault cfg r.rx s = .ok n s') :
    (∀ e ∈ r.rx.batch, e.RecvHandled) ∧ n = r.recvs.length ∧
      s'.ran = s.ran ++ (r.recvs ++ r.cancels) := by
  unfold pollRecvQueueDefault at h
  by_cases hassert : cfg.assertFails = true
  · rw [if_pos hassert] at h
    exact absurd h Program.throw_ok.mp
  rw [if_neg hassert] at h
  cases hrx : r.rx with
  | entries es =>
    simp only [hrx] at h
    by_cases hlen : maxCompletionsArrayLimit < es.length
    · rw [if_pos hlen] at h
      exact absurd h Program.throw_ok.mp
    rw [if_neg hlen] at h
    -- the loop over the batch: each entry runs one handler
    have hbatch := processEntries_ok recvEntry_ran h
    rw [zero_add] at hbatch
    simpa [Round.recvs, Round.cancels, hrx, CqRead.batch] using hbatch
  | eavail e =>
    obtain ⟨ctx, err⟩ := e
    simp only [hrx] at h
    by_cases hcancelled : err = fiEcanceled
    · -- the handler of a cancelled receive is run, and not counted
      rw [if_pos hcancelled] at h
      obtain ⟨m, t, hrun, hret⟩ := Program.bind_ok.mp h
      obtain ⟨c, rfl, -, rfl⟩ := runHandler_ok.mp hrun
      obtain ⟨rfl, rfl⟩ := Program.pure_ok.mp hret
      simp [Round.recvs, Round.cancels, hrx, CqRead.batch, hcancelled]
    · rw [if_neg hcancelled] at h
      -- any other error goes to the context, which ends the program, if there is one
      cases ctx with
      | some c => exact absurd h Program.throw_ok.mp
      | none =>
        obtain ⟨rfl, rfl⟩ := Program.pure_ok.mp h
        simp [Round.recvs, Round.cancels, hrx, CqRead.batch]
  | again | failed =>
    -- nothing was read
    simp only [hrx] at h
    obtain ⟨rfl, rfl⟩ := Program.pure_ok.mp h
    simp [Round.recvs, Round.cancels, hrx, CqRead.batch]

end LibFatbat
