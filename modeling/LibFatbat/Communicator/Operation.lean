import LibFatbat.Communicator.Provider

/-!
# Operations, callbacks and contexts

The data that the communicator, the polling functions and the operation contexts share: the calls
made to the six posting functions, the requests they hand to libfabric, the callbacks they store,
and the `Core` of the program's state with the functions on it that the source has
(`operation_context_base.hpp`, `operation_context.hpp`, and the counters of
`controller_base.hpp`).

A context is a number, in the order in which they are made. The counters are those of a build with
`LIBFATBAT_HAVE_COUNTERS`, the default of the build option. The `log` records what happened,
latest first; the code has nothing like it.
-/

namespace LibFatbat

/-- The posting functions of the communicator. -/
inductive Func
  | send
  | recv
  | read
  | write
  | writeData
  | writeDataDelivery
  deriving DecidableEq

/-- The counters that a posting function uses. -/
def Func.kind : Func → Kind
  | .send => .send
  | .recv => .recv
  | .read => .read
  | .write | .writeData | .writeDataDelivery => .write

/-- A call of a posting function: its number and its arguments. -/
structure Call where
  id : ℕ
  func : Func
  /-- `dst`, or `src` of `recv`. -/
  peer : BitVec 64
  tag : BitVec 64
  size : ℕ
  /-- The address of the region `ptr`. -/
  buffer : ℕ
  remoteAddr : BitVec 64
  remoteKey : BitVec 64
  immData : BitVec 64
  /-- Whether the callback passed is not empty. -/
  hasCallback : Bool
  deriving DecidableEq

namespace Call

/-- The kind of the operation posted. -/
abbrev kind (x : Call) : Kind := x.func.kind

/-- Whether `send` takes the inject path. -/
def inject (cfg : Setup) (x : Call) : Bool :=
  x.func = .send && x.size ≤ cfg.getTxInjectSize

end Call

/-! ### Callbacks -/

/-- A `request_callback_type`: the function passed to a call, and the arguments bound to it by
`std::bind`, if any. -/
structure Callback where
  call : Call
  bound : Option (BitVec 64 × BitVec 64)
  deriving DecidableEq

/-- `std::bind(std::move(cb), dst, tag)`. -/
def Callback.bind (cb : Callback) (dst tag : BitVec 64) : Callback :=
  { cb with bound := some (dst, tag) }

/-- The arguments that reach the user's function when the callback is called with `args`: bound
arguments replace them. -/
def Callback.arguments (cb : Callback) (args : BitVec 64 × BitVec 64) : BitVec 64 × BitVec 64 :=
  cb.bound.getD args

/-- The callback passed to a call. -/
def Call.passed (x : Call) : Option Callback :=
  if x.hasCallback then some { call := x, bound := none } else none

/-- The callback that the posting function stores in the context. -/
def Call.callback (x : Call) : Option Callback :=
  match x.func with
  | .send => x.passed.map fun cb => cb.bind x.peer x.tag
  | .recv => x.passed
  | .read | .write | .writeData | .writeDataDelivery =>
    x.passed.map fun cb => cb.bind x.peer 0#64

/-! ### Requests -/

/-- The functions of libfabric that post an operation. -/
inductive FiFunction
  | tsend
  | tinject
  | trecv
  | read
  | write
  | writedata
  | writemsg
  deriving DecidableEq

/-- What a posting function hands to libfabric. -/
structure FiRequest where
  fn : FiFunction
  buffer : ℕ
  size : ℕ
  addr : BitVec 64
  tag : Option (BitVec 64)
  remote : Option (BitVec 64 × BitVec 64)
  data : Option (BitVec 64)
  context : Option ℕ
  flags : BitVec 64
  deriving DecidableEq

/-- `make_tag64`. The tag is converted to 32 bits. -/
def makeTag64 (tag ctxt : BitVec 64) : BitVec 64 :=
  ((ctxt &&& 0xFFFFFF#64) <<< 24) ||| ((tag.setWidth 32).setWidth 64 &&& 0xFFFFFF#64)

/-- `fi_tsend`, `fi_tinject` or `fi_trecv` of a call. -/
def Call.taggedRequest (x : Call) (fn : FiFunction) (context : Option ℕ) : FiRequest where
  fn := fn
  buffer := x.buffer
  size := x.size
  addr := x.peer
  tag := some (makeTag64 x.tag 0#64)
  remote := none
  data := none
  context := context
  flags := 0#64

/-- `fi_read`, `fi_write`, `fi_writedata` or `fi_writemsg` of a call. -/
def Call.rmaRequest (x : Call) (fn : FiFunction) (data : Option (BitVec 64))
    (context : Option ℕ) (flags : BitVec 64) : FiRequest where
  fn := fn
  buffer := x.buffer
  size := x.size
  addr := x.peer
  tag := none
  remote := some (x.remoteAddr, x.remoteKey)
  data := data
  context := context
  flags := flags

/-- What the call hands to `execute_fi_function`. Without a context `send` injects. -/
def Call.request (x : Call) (context : Option ℕ) : FiRequest :=
  match x.func, context with
  | .send, none => x.taggedRequest .tinject none
  | .send, some c => x.taggedRequest .tsend (some c)
  | .recv, context => x.taggedRequest .trecv context
  | .read, context => x.rmaRequest .read none context 0#64
  | .write, context => x.rmaRequest .write none context 0#64
  | .writeData, context | .writeDataDelivery, context =>
    x.rmaRequest .writedata (some x.immData) context 0#64

/-- What `write_data_delivery` hands to `fi_writemsg`. -/
def Call.writemsgRequest (x : Call) (context : Option ℕ) : FiRequest :=
  x.rmaRequest .writemsg (some x.immData) context (fiRemoteCqData ||| fiDeliveryComplete)

/-! ### The shared state -/

/-- What is recorded about a run. -/
inductive Event
  /-- The call incremented its posted counter. -/
  | counted (x : Call)
  /-- The call was handed a context. -/
  | acquired (x : Call) (context : ℕ)
  /-- The provider accepted a request of the call. -/
  | accepted (x : Call) (request : FiRequest)
  /-- The complete counter was incremented for the call's operation. -/
  | completed (x : Call)
  /-- A poll function processed the entry of the cancelled operation. -/
  | cancelled (x : Call)
  /-- The function passed to the call was invoked. -/
  | invoked (x : Call) (args : BitVec 64 × BitVec 64)
  /-- The function passed to the call has returned. -/
  | finished (x : Call)
  /-- The context was pushed to the free list, or the push failed. -/
  | pushed (context : ℕ) (ok : Bool)
  deriving DecidableEq

/-- The part of the state that operations work on. -/
structure Core where
  /-- `sends_posted_`, `recvs_posted_`, `reads_posted_` and `writes_posted_`. -/
  posted : Kind → BitVec 32
  /-- `sends_complete_`, `recvs_complete_`, `reads_complete_` and `writes_complete_`. -/
  complete : Kind → BitVec 32
  /-- `m_callback` of each context. -/
  callback : ℕ → Option Callback
  /-- `free_list_`, its top first. -/
  freeList : List ℕ
  /-- The contexts deleted. -/
  deleted : List ℕ
  /-- The number of contexts made. -/
  nextCtx : ℕ
  /-- The number of calls made. -/
  nextCall : ℕ
  log : List Event

namespace Core

/-- The state of a fresh program. -/
def start : Core where
  posted _ := 0#32
  complete _ := 0#32
  callback _ := none
  freeList := []
  deleted := []
  nextCtx := 0
  nextCall := 0
  log := []

/-- An event is recorded. -/
def record (s : Core) (e : Event) : Core := { s with log := e :: s.log }

/-- A call begins. -/
def begin (s : Core) : Core := { s with nextCall := s.nextCall + 1 }

/-- The increment of the posted counter of a call. -/
def countPosted (s : Core) (x : Call) : Core :=
  { s with posted := Function.update s.posted x.kind (s.posted x.kind + 1#32)
           log := .counted x :: s.log }

/-- The increment of a complete counter, for the operation of a call. -/
def countComplete (s : Core) (kind : Kind) (x : Call) : Core :=
  { s with complete := Function.update s.complete kind (s.complete kind + 1#32)
           log := .completed x :: s.log }

/-- `acquire_from_pool`: the context handed out, and the state after. -/
def acquireFromPool (s : Core) : ℕ × Core :=
  match s.freeList with
  | c :: rest => (c, { s with freeList := rest })
  | [] => (s.nextCtx, { s with nextCtx := s.nextCtx + 1 })

/-- `m_callback = cb`. -/
def setCallback (s : Core) (c : ℕ) (cb : Option Callback) : Core :=
  { s with callback := Function.update s.callback c cb }

/-- `recycle_to_pool`, given whether the push succeeds. -/
def recycleToPool (s : Core) (c : ℕ) (pushed : Bool) : Core :=
  if pushed then { s with freeList := c :: s.freeList } else { s with deleted := c :: s.deleted }

/-- A context that is recycled is handed out again, unless its push fails. -/
theorem acquireFromPool_recycleToPool (s : Core) (c : ℕ) :
    (s.recycleToPool c true).acquireFromPool = (c, s) ∧
      (s.recycleToPool c false).acquireFromPool.1 = s.acquireFromPool.1 := by
  refine ⟨rfl, ?_⟩
  unfold acquireFromPool recycleToPool
  cases s.freeList <;> rfl

/-- The invocation of a callback with `args`. -/
def invoke (s : Core) (cb : Callback) (args : BitVec 64 × BitVec 64) : Core :=
  s.record (.invoked cb.call (cb.arguments args))

end Core

end LibFatbat
