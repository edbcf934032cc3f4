import LibFatbat.Communicator.Lifecycle

/-!
# The communicator's threads

Any number of threads on one communicator and its controller. A thread is a stack of `Frame`s, the
running one first: the user's code, a posting function of `communicator.hpp`,
`poll_for_work_completions` with the two functions it calls, the completion handlers of
`operation_context.hpp`, or one of the wait loops of `test_utils.hpp`. The user's code is the main
function at the bottom of each stack and every callback; it may post, poll and wait, so the stack
grows to any depth. `communicator` is the `ThreadSystem` of their steps, each with at most one
access to what the threads share.

Of libfabric the model has what the code reads. A posting function is answered with any return
code; 0 means that the operation is accepted, and then it is in flight. Reading a completion queue
yields any entries for operations in flight, each once, with the flags documented for them; or the
cancellation of one of them; or nothing. Which endpoint and which queue are used is left open, so
that any poll may report any operation.

An exception of the user's code unwinds the stack to some other frame of it. `std::terminate` is no
step, and neither is the construction of a `fabric_error`, which calls it: so a run has no step
after a return code or an error entry that the code answers with one.
-/

open Concurrent

namespace LibFatbat

/-- An operation that the provider has accepted, with its `op_context`. -/
structure Op where
  call : Call
  ctx : ℕ
  deriving DecidableEq

/-- A `fi_cq_tagged_entry` of the transmit queue. -/
structure TxEntry where
  op : Op
  flags : BitVec 64
  transmit : op.call.kind ≠ .recv
  documented : op.call.kind.Documented flags

/-- A `fi_cq_tagged_entry` of the receive queue, for a receive or for data of a remote peer. -/
inductive RxEntry
  | recv (op : Op) (flags : BitVec 64) (receive : op.call.kind = .recv)
      (documented : Kind.recv.Documented flags)
  | remote (flags : BitVec 64)

/-- The operations that entries are for. -/
def TxEntry.ops (entries : List TxEntry) : Multiset Op := entries.map TxEntry.op

def RxEntry.op? : RxEntry → Option Op
  | .recv op _ _ _ => some op
  | .remote _ => none

def RxEntry.ops (entries : List RxEntry) : Multiset Op := entries.filterMap RxEntry.op?

/-! ### Frames -/

/-- Where a posting function is. -/
inductive PostPc
  /-- At the increment of the posted counter, with the context if there is one already. -/
  | count (ctx : Option ℕ)
  | acquire
  | setCallback (c : ℕ)
  /-- In the loop of `execute_fi_function`. -/
  | execute (ctx : Option ℕ)
  /-- At the test of `while (delivery_complete_supported)`. -/
  | deliveryTest (c : ℕ)
  | writemsg (c : ℕ)
  /-- At `if (!delivery_complete_supported)`. -/
  | fallbackTest (c : ℕ)
  /-- At `sends_complete_++`, after the inject. -/
  | injectComplete
  | injectCallback
  /-- In the callback that an injecting `send` invokes. -/
  | injectRunning
  | ret

/-- `send` and `recv` increment their counter before anything else. -/
def Func.countsFirst : Func → Bool
  | .send | .recv => true
  | .read | .write | .writeData | .writeDataDelivery => false

/-- The first step of a posting function. -/
def Func.entry (func : Func) : PostPc := if func.countsFirst then .count none else .acquire

/-- What follows the increment of the posted counter. -/
def Call.afterCount (cfg : Setup) (x : Call) : Option ℕ → PostPc
  | none => if x.inject cfg then .execute none else .acquire
  | some c => if x.func = .writeDataDelivery then .deliveryTest c else .execute (some c)

/-- What follows the storing of the callback. -/
def Call.afterSetCallback (x : Call) (c : ℕ) : PostPc :=
  if x.func.countsFirst then .execute (some c) else .count (some c)

/-- Where `poll_for_work_completions` and the functions it calls are. `retry` is the variable of
that name. -/
inductive PollPc
  | trySendLock
  | readTx
  | txBatch (entries : List TxEntry) (processed : ℕ)
  | recvLock (retry : Bool)
  | readRx (retry : Bool)
  /-- In `handle_cancelled`. -/
  | rxCancelled (retry : Bool)
  | rxBatch (entries : List RxEntry) (processed : ℕ) (retry : Bool)
  /-- In `remote_cq_data_callback_`. -/
  | remoteData (entries : List RxEntry) (processed : ℕ) (retry : Bool)
  | loopTest (retry : Bool)

/-- `n == max_completions_per_poll_`, where `n` is converted to `uint32_t`. -/
def Setup.full (cfg : Setup) (n : ℤ) : Bool :=
  BitVec.ofInt 32 n = BitVec.ofNat 32 cfg.maxCompletionsPerPoll

/-- Where a completion handler is. -/
inductive HandlerPc
  /-- At `invoke_cb`; the handler is `handle_cancelled` or not. -/
  | invokeCb (cancelled : Bool)
  | running
  /-- At `m_callback = nullptr`. -/
  | clear
  | push

/-- Where a wait loop is, with the values of the counters that it has read. -/
inductive WaitPc
  /-- In the condition of `wait_for_msg_completions`: at the sends, or with the sends posted at the
  receives. -/
  | msg (sends complete posted : Option (BitVec 32))
  | msgReturn (sends recvs : BitVec 32)
  | writes (target : BitVec 32)
  | writesReturn (target : BitVec 32)

/-- A frame of a thread's stack. -/
inductive Frame
  | main
  | posting (x : Call) (pc : PostPc)
  | polling (pc : PollPc)
  | handling (x : Call) (c : ℕ) (pc : HandlerPc)
  | waiting (pc : WaitPc)

namespace Frame

/-- Whether the frame is in the user's code. -/
def isUser : Frame → Bool
  | .main | .posting _ .injectRunning | .polling (.remoteData ..) | .handling _ _ .running => true
  | _ => false

/-- Whether the frame is in the scope of the lock of `send_mutex_`. -/
def inSendLock : Frame → Bool
  | .polling .readTx => true
  | _ => false

/-- Whether the frame is in the scope of the lock of `recv_mutex_`. -/
def inRecvLock : Frame → Bool
  | .polling (.readRx _) | .polling (.rxCancelled _) => true
  | _ => false

end Frame

/-! ### The operations in the hands of a frame -/

def Op.token (o : Op) : Token := ⟨o.call, some o.ctx, .inflight, false⟩

/-- The operation that a posting function works on, until the provider has it. -/
def PostPc.tokens (x : Call) : PostPc → Multiset Token
  | .count ctx => {⟨x, ctx, .posting false ctx.isSome, false⟩}
  | .acquire => {⟨x, none, .posting x.func.countsFirst false, false⟩}
  | .setCallback c => {⟨x, some c, .posting x.func.countsFirst false, false⟩}
  | .execute ctx => {⟨x, ctx, .posting true ctx.isSome, false⟩}
  | .deliveryTest c | .writemsg c | .fallbackTest c => {⟨x, some c, .posting true true, false⟩}
  | .injectComplete => {⟨x, none, .injected, false⟩}
  | .injectCallback => {⟨x, none, .injectReady, false⟩}
  | .injectRunning => {⟨x, none, .injectRunning, false⟩}
  | .ret => 0

/-- The stage of the operation that a handler works on. -/
def HandlerPc.stage : HandlerPc → Stage
  | .invokeCb false => .completed
  | .invokeCb true => .cancelled
  | .running => .running
  | .clear => .invoked
  | .push => .cleared

/-- The operations in the hands of a frame. -/
def Frame.tokens : Frame → Multiset Token
  | .main | .waiting _ => 0
  | .posting x pc => pc.tokens x
  | .polling (.txBatch entries _) => (TxEntry.ops entries).map Op.token
  | .polling (.rxBatch entries _ _) | .polling (.remoteData entries _ _) =>
    (RxEntry.ops entries).map Op.token
  | .polling _ => 0
  | .handling x c pc => {⟨x, some c, pc.stage, false⟩}

/-! ### The state that the threads share -/

structure Shared where
  core : Core
  /-- The operations that the provider has accepted and not reported. -/
  inflight : Multiset Op
  /-- The operations that are over, or lost; the code has nothing like it. -/
  retired : Multiset Token
  /-- The calls that have returned, the latest first; the code has nothing like it. -/
  returned : List Call
  /-- `delivery_complete_supported`. -/
  deliveryCompleteSupported : Bool
  /-- The thread that holds `send_mutex_`. -/
  sendMutex : Option ℕ
  /-- The thread that holds `recv_mutex_`. -/
  recvMutex : Option ℕ
  /-- `remote_cq_data_received_`. -/
  remoteCqDataReceived : BitVec 32

namespace Shared

def start : Shared where
  core := .start
  inflight := 0
  retired := 0
  returned := []
  deliveryCompleteSupported := true
  sendMutex := none
  recvMutex := none
  remoteCqDataReceived := 0#32

/-- The provider accepts an operation with a context. -/
def accept (s : Shared) (x : Call) (c : ℕ) (request : FiRequest) : Shared :=
  { s with core := s.core.record (.accepted x request), inflight := ⟨x, c⟩ ::ₘ s.inflight }

/-- An operation is over. -/
def retire (s : Shared) (t : Token) : Shared := { s with retired := t ::ₘ s.retired }

/-- Frames are dropped: their locks are released, the operations in their hands are lost. -/
def drop (s : Shared) (frames : List Frame) : Shared :=
  { s with
    retired := ((frames.map Frame.tokens).sum.map fun t => { t with lost := true }) + s.retired
    sendMutex := if frames.any Frame.inSendLock then none else s.sendMutex
    recvMutex := if frames.any Frame.inRecvLock then none else s.recvMutex }

end Shared

/-! ### Steps -/

/-- The steps of thread `i` on the frame that is running, which it replaces by others. -/
inductive FrameStep (cfg : Setup) (i : ℕ) : Shared → Frame → Shared → List Frame → Prop
  -- The user's code: it calls, it returns.
  | call {s : Shared} {f : Frame} {x : Call} (huser : f.isUser) (hid : x.id = s.core.nextCall) :
      FrameStep cfg i s f { s with core := s.core.begin } [.posting x x.func.entry, f]
  | poll {s : Shared} {f : Frame} (huser : f.isUser) :
      FrameStep cfg i s f s [.polling .trySendLock, f]
  | waitMsg {s : Shared} {f : Frame} (huser : f.isUser) :
      FrameStep cfg i s f s [.waiting (.msg none none none), f]
  | waitWrites {s : Shared} {f : Frame} (target : BitVec 32) (huser : f.isUser) :
      FrameStep cfg i s f s [.waiting (.writes target), f]
  | exit {s : Shared} : FrameStep cfg i s .main s []
  | callbackReturn {s : Shared} {x : Call} {c : ℕ} :
      FrameStep cfg i s (.handling x c .running)
        { s with core := s.core.record (.finished x) } [.handling x c .clear]
  | injectReturn {s : Shared} {x : Call} :
      FrameStep cfg i s (.posting x .injectRunning)
        ({ s with core := s.core.record (.finished x) }.retire ⟨x, none, .finished, false⟩)
        [.posting x .ret]
  | remoteDataReturn {s : Shared} {entries : List RxEntry} {processed : ℕ} {retry : Bool} :
      FrameStep cfg i s (.polling (.remoteData entries processed retry)) s
        [.polling (.rxBatch entries processed retry)]
  -- The posting functions.
  | count {s : Shared} {x : Call} {ctx : Option ℕ} :
      FrameStep cfg i s (.posting x (.count ctx)) { s with core := s.core.countPosted x }
        [.posting x (x.afterCount cfg ctx)]
  | acquire {s : Shared} {x : Call} :
      FrameStep cfg i s (.posting x .acquire)
        { s with core := s.core.acquireFromPool.2.record (.acquired x s.core.acquireFromPool.1) }
        [.posting x (.setCallback s.core.acquireFromPool.1)]
  | setCallback {s : Shared} {x : Call} {c : ℕ} :
      FrameStep cfg i s (.posting x (.setCallback c))
        { s with core := s.core.setCallback c x.callback } [.posting x (x.afterSetCallback c)]
  | executeAccepted {s : Shared} {x : Call} {c : ℕ} (ret : ℤ)
      (hret : executeFiFunction ret = .accepted) :
      FrameStep cfg i s (.posting x (.execute (some c))) (s.accept x c (x.request (some c)))
        [.posting x .ret]
  | injectAccepted {s : Shared} {x : Call} (ret : ℤ) (hret : executeFiFunction ret = .accepted) :
      FrameStep cfg i s (.posting x (.execute none))
        { s with core := s.core.record (.accepted x (x.request none)) }
        [.posting x .injectComplete]
  | executeAgain {s : Shared} {x : Call} {ctx : Option ℕ} (ret : ℤ)
      (hret : executeFiFunction ret = .poll) :
      FrameStep cfg i s (.posting x (.execute ctx)) s
        [.polling .trySendLock, .posting x (.execute ctx)]
  | deliveryTest {s : Shared} {x : Call} {c : ℕ} :
      FrameStep cfg i s (.posting x (.deliveryTest c)) s
        [.posting x (if s.deliveryCompleteSupported then .writemsg c else .fallbackTest c)]
  | writemsgAccepted {s : Shared} {x : Call} {c : ℕ} (ret : ℤ)
      (hret : writemsgOutcome ret = .accepted) :
      FrameStep cfg i s (.posting x (.writemsg c)) (s.accept x c (x.writemsgRequest (some c)))
        [.posting x .ret]
  | writemsgAgain {s : Shared} {x : Call} {c : ℕ} (ret : ℤ) (hret : writemsgOutcome ret = .poll) :
      FrameStep cfg i s (.posting x (.writemsg c)) s
        [.polling .trySendLock, .posting x (.deliveryTest c)]
  | writemsgFallback {s : Shared} {x : Call} {c : ℕ} (ret : ℤ)
      (hret : writemsgOutcome ret = .fallback) :
      FrameStep cfg i s (.posting x (.writemsg c)) { s with deliveryCompleteSupported := false }
        [.posting x (.fallbackTest c)]
  | fallback {s : Shared} {x : Call} {c : ℕ} (hflag : s.deliveryCompleteSupported = false) :
      FrameStep cfg i s (.posting x (.fallbackTest c)) s [.posting x (.execute (some c))]
  | noFallback {s : Shared} {x : Call} {c : ℕ} (hflag : s.deliveryCompleteSupported = true) :
      -- the call returns without having posted
      FrameStep cfg i s (.posting x (.fallbackTest c))
        (s.retire ⟨x, some c, .posting true true, true⟩) [.posting x .ret]
  | injectComplete {s : Shared} {x : Call} :
      FrameStep cfg i s (.posting x .injectComplete)
        { s with core := s.core.countComplete .send x } [.posting x .injectCallback]
  | injectInvoke {s : Shared} {x : Call} {cb : Callback} (hcb : x.passed = some cb) :
      FrameStep cfg i s (.posting x .injectCallback)
        { s with core := s.core.invoke cb (x.peer, x.tag) } [.posting x .injectRunning]
  | injectSkip {s : Shared} {x : Call} (hcb : x.passed = none) :
      FrameStep cfg i s (.posting x .injectCallback) (s.retire ⟨x, none, .finished, false⟩)
        [.posting x .ret]
  | ret {s : Shared} {x : Call} :
      FrameStep cfg i s (.posting x .ret) { s with returned := x :: s.returned } []
  -- `poll_send_queue_default`.
  | txBypass {s : Shared} (hbypass : cfg.bypassTxLock = true) :
      FrameStep cfg i s (.polling .trySendLock) s [.polling .readTx]
  | txLock {s : Shared} (hbypass : cfg.bypassTxLock = false) (hfree : s.sendMutex = none) :
      FrameStep cfg i s (.polling .trySendLock) { s with sendMutex := some i } [.polling .readTx]
  | txBusy {s : Shared} (hbypass : cfg.bypassTxLock = false) :
      -- `try_lock` may also fail when the mutex is free
      FrameStep cfg i s (.polling .trySendLock) s [.polling (.recvLock (cfg.full (-1)))]
  | txEntries {s : Shared} (entries : List TxEntry) (rest : Multiset Op)
      (hlen : entries.length ≤ cfg.maxCompletionsPerPoll)
      (hops : s.inflight = TxEntry.ops entries + rest) :
      FrameStep cfg i s (.polling .readTx) { s with inflight := rest, sendMutex := none }
        [.polling (.txBatch entries 0)]
  | txNothing {s : Shared} :
      -- no entry, or an error entry without a context
      FrameStep cfg i s (.polling .readTx) { s with sendMutex := none }
        [.polling (.recvLock (cfg.full 0))]
  | txEntry {s : Shared} {e : TxEntry} {entries : List TxEntry} {processed : ℕ} {kind : Kind}
      (hflags : classifyTx e.flags = some kind) :
      FrameStep cfg i s (.polling (.txBatch (e :: entries) processed))
        { s with core := s.core.countComplete kind e.op.call }
        [.handling e.op.call e.op.ctx (.invokeCb false),
          .polling (.txBatch entries (processed + 1))]
  | txDone {s : Shared} {processed : ℕ} :
      FrameStep cfg i s (.polling (.txBatch [] processed)) s
        [.polling (.recvLock (cfg.full processed))]
  -- `poll_recv_queue_default`.
  | rxBypass {s : Shared} {retry : Bool} (hbypass : cfg.bypassRxLock = true) :
      FrameStep cfg i s (.polling (.recvLock retry)) s [.polling (.readRx retry)]
  | rxLock {s : Shared} {retry : Bool} (hbypass : cfg.bypassRxLock = false)
      (hfree : s.recvMutex = none) :
      FrameStep cfg i s (.polling (.recvLock retry)) { s with recvMutex := some i }
        [.polling (.readRx retry)]
  | rxEntries {s : Shared} (entries : List RxEntry) (rest : Multiset Op) {retry : Bool}
      (hlen : entries.length ≤ cfg.maxCompletionsPerPoll)
      (hops : s.inflight = RxEntry.ops entries + rest) :
      FrameStep cfg i s (.polling (.readRx retry)) { s with inflight := rest, recvMutex := none }
        [.polling (.rxBatch entries 0 retry)]
  | rxNothing {s : Shared} {retry : Bool} :
      FrameStep cfg i s (.polling (.readRx retry)) { s with recvMutex := none }
        [.polling (.loopTest (retry || cfg.full 0))]
  | rxCancel {s : Shared} {o : Op} (rest : Multiset Op) {retry : Bool}
      (hkind : o.call.kind = .recv) (hops : s.inflight = o ::ₘ rest) :
      -- `FI_ECANCELED`: the lock is held while the handler runs
      FrameStep cfg i s (.polling (.readRx retry))
        { s with core := s.core.record (.cancelled o.call), inflight := rest }
        [.handling o.call o.ctx (.invokeCb true), .polling (.rxCancelled retry)]
  | rxCancelDone {s : Shared} {retry : Bool} :
      FrameStep cfg i s (.polling (.rxCancelled retry)) { s with recvMutex := none }
        [.polling (.loopTest (retry || cfg.full 0))]
  | rxEntry {s : Shared} {op : Op} {flags : BitVec 64} {receive : op.call.kind = .recv}
      {documented : Kind.recv.Documented flags} {entries : List RxEntry} {processed : ℕ}
      {retry : Bool} {kind : Kind} (hflags : classifyRx flags = some (some kind)) :
      FrameStep cfg i s
        (.polling (.rxBatch (.recv op flags receive documented :: entries) processed retry))
        { s with core := s.core.countComplete kind op.call }
        [.handling op.call op.ctx (.invokeCb false),
          .polling (.rxBatch entries (processed + 1) retry)]
  | rxRemoteData {s : Shared} {flags : BitVec 64} {entries : List RxEntry} {processed : ℕ}
      {retry : Bool} (hflags : classifyRx flags = some none) :
      FrameStep cfg i s (.polling (.rxBatch (.remote flags :: entries) processed retry))
        { s with remoteCqDataReceived := s.remoteCqDataReceived + 1#32 }
        [.polling (.remoteData entries processed retry)]
  | rxDone {s : Shared} {processed : ℕ} {retry : Bool} :
      FrameStep cfg i s (.polling (.rxBatch [] processed retry)) s
        [.polling (.loopTest (retry || cfg.full processed))]
  -- `poll_for_work_completions`.
  | pollAgain {s : Shared} :
      FrameStep cfg i s (.polling (.loopTest true)) s [.polling .trySendLock]
  | pollDone {s : Shared} : FrameStep cfg i s (.polling (.loopTest false)) s []
  -- The completion handlers, which are all alike.
  | invokeCb {s : Shared} {x : Call} {c : ℕ} {cancelled : Bool} {cb : Callback}
      (hcb : s.core.callback c = some cb) :
      FrameStep cfg i s (.handling x c (.invokeCb cancelled))
        { s with core := s.core.invoke cb (0#64, 0#64) } [.handling x c .running]
  | skipCb {s : Shared} {x : Call} {c : ℕ} {cancelled : Bool} (hcb : s.core.callback c = none) :
      FrameStep cfg i s (.handling x c (.invokeCb cancelled)) s [.handling x c .clear]
  | clear {s : Shared} {x : Call} {c : ℕ} :
      FrameStep cfg i s (.handling x c .clear) { s with core := s.core.setCallback c none }
        [.handling x c .push]
  | push {s : Shared} {x : Call} {c : ℕ} (pushed : Bool) :
      FrameStep cfg i s (.handling x c .push)
        ({ s with core := (s.core.recycleToPool c pushed).record (.pushed c pushed) }.retire
          ⟨x, none, .finished, false⟩) []
  -- The wait loops. The operands of `<` are read in either order.
  | waitReadComplete {s : Shared} {sends posted : Option (BitVec 32)} :
      FrameStep cfg i s (.waiting (.msg sends none posted)) s
        [.waiting (.msg sends (some (s.core.complete (if sends.isNone then .send else .recv)))
          posted)]
  | waitReadPosted {s : Shared} {sends complete : Option (BitVec 32)} :
      FrameStep cfg i s (.waiting (.msg sends complete none)) s
        [.waiting (.msg sends complete
          (some (s.core.posted (if sends.isNone then .send else .recv))))]
  | waitAgain {s : Shared} {sends : Option (BitVec 32)} {complete posted : BitVec 32}
      (hlt : complete < posted) :
      FrameStep cfg i s (.waiting (.msg sends (some complete) (some posted))) s
        [.waiting (.msg none none none)]
  | waitRecvs {s : Shared} {complete posted : BitVec 32} (hle : ¬ complete < posted) :
      FrameStep cfg i s (.waiting (.msg none (some complete) (some posted))) s
        [.waiting (.msg (some posted) none none)]
  | waitDone {s : Shared} {sends complete posted : BitVec 32} (hle : ¬ complete < posted) :
      FrameStep cfg i s (.waiting (.msg (some sends) (some complete) (some posted))) s
        [.waiting (.msgReturn sends posted)]
  | waitReturn {s : Shared} {sends recvs : BitVec 32} :
      FrameStep cfg i s (.waiting (.msgReturn sends recvs)) s []
  | writesAgain {s : Shared} {target : BitVec 32} (hlt : s.core.complete .write < target) :
      FrameStep cfg i s (.waiting (.writes target)) s [.waiting (.writes target)]
  | writesDone {s : Shared} {target : BitVec 32} (hle : ¬ s.core.complete .write < target) :
      FrameStep cfg i s (.waiting (.writes target)) s [.waiting (.writesReturn target)]
  | writesReturn {s : Shared} {target : BitVec 32} :
      FrameStep cfg i s (.waiting (.writesReturn target)) s []

/-- The steps of thread `i` without exceptions. -/
inductive RunStep (cfg : Setup) (i : ℕ) : Shared → List Frame → Shared → List Frame → Prop
  | top {s s' : Shared} {f : Frame} {fs rest : List Frame} (h : FrameStep cfg i s f s' fs) :
      RunStep cfg i s (f :: rest) s' (fs ++ rest)

/-- The steps of thread `i`. The user's code may throw: the exception ends the running frame and any
number of its callers, up to one in the user's code that catches it. -/
inductive CommStep (cfg : Setup) (i : ℕ) : Shared → List Frame → Shared → List Frame → Prop
  | run {s s' : Shared} {stack stack' : List Frame} (h : RunStep cfg i s stack s' stack') :
      CommStep cfg i s stack s' stack'
  | unwind {s : Shared} {f g : Frame} {dropped rest : List Frame} (hthrow : f.isUser)
      (hcatch : g.isUser) :
      CommStep cfg i s (f :: dropped ++ g :: rest) (s.drop (f :: dropped)) (g :: rest)

/-- The threads of a program that uses the communicator. -/
def communicator (cfg : Setup) : ThreadSystem Shared (List Frame) where
  init c := c.shared = .start ∧ ∀ stack ∈ c.threads, stack = [.main]
  step := CommStep cfg

/-- The runs in which no exception is thrown. -/
def exceptionFree (cfg : Setup) : ThreadSystem Shared (List Frame) :=
  (communicator cfg).restrict fun i s stack s' stack' => RunStep cfg i s stack s' stack'

/-- Such a run goes on with a step of the running frame of thread `i`. -/
theorem exceptionFree_next {cfg : Setup} {c : Config Shared (List Frame)} {s' : Shared}
    {f : Frame} {fs rest : List Frame} (hc : (exceptionFree cfg).Reachable c) (i : ℕ)
    (hget : c.threads[i]? = some (f :: rest)) (h : FrameStep cfg i c.shared f s' fs) :
    (exceptionFree cfg).Reachable ⟨s', c.threads.set i (fs ++ rest)⟩ :=
  hc.next i hget ⟨.run (.top h), .top h⟩

/-! ### A first receive -/

section FirstReceive

variable {cfg : Setup} {x : Call} {others : List (List Frame)}

/-- The state after a first call, of `recv`, whose receive is accepted. -/
def Shared.recvPosted (x : Call) : Shared where
  core :=
    ((({ Core.start.begin.countPosted x with nextCtx := 1 }.record (.acquired x 0)).setCallback 0
      x.callback).record (.accepted x (x.request (some 0))))
  inflight := {⟨x, 0⟩}
  retired := 0
  returned := [x]
  deliveryCompleteSupported := true
  sendMutex := none
  recvMutex := none
  remoteCqDataReceived := 0#32

theorem reachable_recvPosted (hid : x.id = 0) (hfunc : x.func = .recv)
    (hothers : ∀ stack ∈ others, stack = [.main]) :
    (exceptionFree cfg).Reachable ⟨.recvPosted x, [.main] :: others⟩ := by
  obtain ⟨id, func, peer, tag, size, buffer, remoteAddr, remoteKey, immData, hasCallback⟩ := x
  obtain rfl : id = 0 := hid
  obtain rfl : func = .recv := hfunc
  have h0 : (exceptionFree cfg).Reachable ⟨.start, [.main] :: others⟩ :=
    .start ⟨rfl, List.forall_mem_cons.mpr ⟨rfl, hothers⟩⟩
  have h1 := exceptionFree_next h0 0 rfl (.call
    (x := ⟨0, .recv, peer, tag, size, buffer, remoteAddr, remoteKey, immData, hasCallback⟩)
    rfl rfl)
  have h2 := exceptionFree_next h1 0 rfl .count
  have h3 := exceptionFree_next h2 0 rfl .acquire
  have h4 := exceptionFree_next h3 0 rfl .setCallback
  have h5 := exceptionFree_next h4 0 rfl (.executeAccepted 0 rfl)
  exact exceptionFree_next h5 0 rfl .ret

/-- The state when a thread has then polled and found the receive cancelled, under the lock. -/
def Shared.recvCancelled (x : Call) : Shared :=
  { recvPosted x with core := (recvPosted x).core.record (.cancelled x), inflight := 0
                      recvMutex := some 0 }

theorem reachable_recvCancelled (htx : cfg.bypassTxLock = false) (hrx : cfg.bypassRxLock = false)
    (hid : x.id = 0) (hfunc : x.func = .recv) (hothers : ∀ stack ∈ others, stack = [.main]) :
    (exceptionFree cfg).Reachable ⟨.recvCancelled x,
      [.handling x 0 (.invokeCb true), .polling (.rxCancelled (cfg.full 0)), .main] :: others⟩ := by
  have h0 : (exceptionFree cfg).Reachable ⟨.recvPosted x, [.main] :: others⟩ :=
    reachable_recvPosted hid hfunc hothers
  have h1 := exceptionFree_next h0 0 rfl (.poll rfl)
  have h2 := exceptionFree_next h1 0 rfl (.txLock htx rfl)
  have h3 := exceptionFree_next h2 0 rfl .txNothing
  have h4 := exceptionFree_next h3 0 rfl (.rxLock hrx rfl)
  have hkind : x.kind = .recv := congrArg Func.kind hfunc
  exact exceptionFree_next h4 0 rfl (.rxCancel (o := ⟨x, 0⟩) 0 hkind rfl)

/-- The state when a thread has then polled and counted the receive as complete. -/
def Shared.recvCompleted (x : Call) : Shared :=
  { recvPosted x with core := (recvPosted x).core.countComplete .recv x, inflight := 0 }

theorem reachable_recvCompleted (htx : cfg.bypassTxLock = true) (hrx : cfg.bypassRxLock = true)
    (hmax : 1 ≤ cfg.maxCompletionsPerPoll) (hid : x.id = 0) (hfunc : x.func = .recv) :
    (exceptionFree cfg).Reachable ⟨.recvCompleted x, [[.main],
      [.handling x 0 (.invokeCb false), .polling (.rxBatch [] 1 (cfg.full 0)), .main]]⟩ := by
  have h0 : (exceptionFree cfg).Reachable ⟨.recvPosted x, [[.main], [.main]]⟩ :=
    reachable_recvPosted hid hfunc (by simp)
  have h1 := exceptionFree_next h0 1 rfl (.poll rfl)
  have h2 := exceptionFree_next h1 1 rfl (.txBypass htx)
  have h3 := exceptionFree_next h2 1 rfl .txNothing
  have h4 := exceptionFree_next h3 1 rfl (.rxBypass hrx)
  have hkind : x.kind = .recv := congrArg Func.kind hfunc
  have h5 := exceptionFree_next h4 1 rfl
    (.rxEntries [.recv ⟨x, 0⟩ (fiRecv ||| fiTagged) hkind documented_recv] 0 hmax rfl)
  exact exceptionFree_next h5 1 rfl (.rxEntry (classifyRx_eq documented_recv))

end FirstReceive

end LibFatbat
