import Mathlib.Tactic
import LibFatbat.Concurrent.ThreadSystem

/-!
# Controllers, their endpoints and the thread-local slots

The endpoints of `controller_base.hpp` as one process sees them: any number of controllers, each
with its queues `tx_endpoints_` and `rx_endpoints_` and its shared endpoints `ep_tx_` and `ep_rx_`,
and any number of threads, each with the three slots `tl_tx_`, `tl_stx_` and `tl_srx_` of
`endpoints_lifetime_manager`. The slots are static, so all controllers use the same ones.

`get_tx_endpoint` and `get_rx_endpoint` are taken apart into the steps at which another thread can
interfere: the test of the slot, the pop from or the push to the queue, the move assignment to the
slot, and the destruction of the temporary `stack_endpoint`. A thread that exits runs the
destructors of its slots. `endpointSystem` is the resulting `ThreadSystem`; its results are in
`Endpoint.Pool` and `Endpoint.Lifetime`.

A libfabric object (endpoint or completion queue) is a number, handed out in order and never used
again. What the standard leaves undefined is no step: a call on a controller that is not
initialised, and the destruction of a controller in use. Where libfabric refuses what it is asked to
the program ends, in the constructor of `fabric_error`. The initialisation of a `scalableTxRx`
controller is no step either, as `initialize` enables `ep_rx_` without having made one.
-/

open Concurrent

namespace LibFatbat

/-- `enum class endpoint_type`. -/
inductive EndpointType
  | single
  | multiple
  | threadlocalTx
  | scalableTx
  | scalableTxRx
  deriving DecidableEq

/-- `struct endpoint_wrapper`, less the name used in log messages. -/
structure EndpointWrapper where
  ep : Option ℕ
  rq : Option ℕ
  tq : Option ℕ
  deriving DecidableEq

/-- The objects that `cleanup` closes, in its order. -/
def EndpointWrapper.handles (w : EndpointWrapper) : List ℕ :=
  w.ep.toList ++ w.rq.toList ++ w.tq.toList

/-- The default constructor of `endpoint_wrapper`. -/
def EndpointWrapper.default : EndpointWrapper := ⟨none, none, none⟩

/-- The two queues of a controller. -/
inductive Direction
  | tx
  | rx
  deriving DecidableEq

/-- A pointer to a queue: `&tx_endpoints_` or `&rx_endpoints_` of a controller. -/
structure PoolRef where
  controller : ℕ
  dir : Direction
  deriving DecidableEq

/-- `struct stack_endpoint`. -/
structure StackEndpoint where
  endpoint : EndpointWrapper
  pool : Option PoolRef
  deriving DecidableEq

/-- The default constructor of `stack_endpoint`. -/
def StackEndpoint.default : StackEndpoint := ⟨.default, none⟩

/-- `operator=(stack_endpoint&& other)`: the new values of `*this` and of `other`, whose pool is
exchanged for a null pointer. -/
def StackEndpoint.moveAssign (_this other : StackEndpoint) : StackEndpoint × StackEndpoint :=
  (⟨other.endpoint, other.pool⟩, ⟨other.endpoint, none⟩)

/-- The thread-local members of `endpoints_lifetime_manager`. -/
inductive Slot
  | tlTx
  | tlStx
  | tlSrx
  deriving DecidableEq

inductive Phase
  | unborn
  | constructed
  | initialised
  | destroyed
  deriving DecidableEq

/-- A `controller_base`. -/
structure Controller where
  phase : Phase
  endpointType : EndpointType
  txEndpoints : List EndpointWrapper
  rxEndpoints : List EndpointWrapper
  epTx : EndpointWrapper
  epRx : EndpointWrapper
  /-- How many calls are in progress on it. -/
  calls : ℕ
  /-- Every endpoint made for `tx_endpoints_` so far. -/
  pooled : List ℕ
  /-- What the destructor took out of `tx_endpoints_`. -/
  consumed : List EndpointWrapper

/-- `controller_base()`. -/
def Controller.unborn : Controller where
  phase := .unborn
  endpointType := .single
  txEndpoints := []
  rxEndpoints := []
  epTx := .default
  epRx := .default
  calls := 0
  pooled := []
  consumed := []

/-- What the threads share. -/
structure Process where
  controllers : ℕ → Controller
  /-- Which controller made each libfabric object. -/
  creator : List ℕ
  /-- The objects closed so far. -/
  closed : List ℕ

/-- The process with controller `k` changed. -/
def Process.modify (s : Process) (k : ℕ) (f : Controller → Controller) : Process :=
  { s with controllers := Function.update s.controllers k (f (s.controllers k)) }

/-- The next `m` objects are made by controller `k`. -/
def Process.create (s : Process) (k m : ℕ) : Process :=
  { s with creator := s.creator ++ List.replicate m k }

/-! ### Initialisation and destruction -/

/-- The transmit context `i` of a scalable endpoint, with its completion queue, when the first
free number is `base`. -/
def txContext (base i : ℕ) : EndpointWrapper :=
  ⟨some (base + 4 + 2 * i), none, some (base + 5 + 2 * i)⟩

/-- How many numbers `initialize` uses. -/
def initializeCount (contexts : ℕ) : ℕ := 5 + 2 * contexts

/-- `initialize` with the endpoint type read from the environment, the number of contexts
allocated, and whether the provider needs the dummy transmit queue on `ep_rx_`. Numbers from
`base` on are free. -/
def Controller.initializeAs (c : Controller) (type : EndpointType) (contexts : ℕ) (dummyCq : Bool)
    (base : ℕ) : Controller :=
  let rxTxCq := if type = .single ∨ dummyCq then some (base + 2) else none
  let c := { c with phase := .initialised, endpointType := type, epTx := .default
                    epRx := ⟨some base, some (base + 1), rxTxCq⟩ }
  match type with
  | .single | .threadlocalTx => c
  | .multiple => { c with epTx := ⟨some (base + 3), none, some (base + 4)⟩ }
  | .scalableTx | .scalableTxRx =>
    { c with epTx := ⟨some (base + 3), none, none⟩
             txEndpoints := c.txEndpoints ++ (List.range contexts).map (txContext base)
             pooled := c.pooled ++ (List.range contexts).map (base + 4 + 2 * ·) }

/-- The objects closed by `~controller_base`. -/
def Controller.cleanedUp (c : Controller) : List ℕ :=
  (c.txEndpoints ++ c.rxEndpoints ++ [c.epTx, c.epRx]).flatMap EndpointWrapper.handles

/-- `~controller_base`. -/
def Controller.destroy (c : Controller) : Controller :=
  { c with phase := .destroyed, txEndpoints := [], rxEndpoints := [], epTx := .default
           epRx := .default, consumed := c.consumed ++ c.txEndpoints }

/-! ### Getting an endpoint -/

/-- The queue of a controller. -/
def Controller.queue (c : Controller) : Direction → List EndpointWrapper
  | .tx => c.txEndpoints
  | .rx => c.rxEndpoints

/-- The controller with another queue. -/
def Controller.setQueue (c : Controller) : Direction → List EndpointWrapper → Controller
  | .tx, q => { c with txEndpoints := q }
  | .rx, q => { c with rxEndpoints := q }

/-- `push`. A pointer to a queue of a controller that no longer exists is dangling; what is pushed
there is seen by nothing. -/
def Process.push (s : Process) (pool : PoolRef) (w : EndpointWrapper) : Process :=
  s.modify pool.controller fun c => c.setQueue pool.dir (c.queue pool.dir ++ [w])

/-- How a call obtains its endpoint. -/
inductive Route
  /-- From the slot, which a null endpoint makes the thread fill with one of its own. -/
  | threadlocal (slot : Slot)
  /-- From the slot, which a null endpoint makes the thread fill from the queue. -/
  | scalable (slot : Slot)
  /-- From the endpoint that all threads share. -/
  | shared (w : EndpointWrapper)

/-- The branches of `get_tx_endpoint`. -/
def Controller.getTxEndpoint (c : Controller) : Route :=
  match c.endpointType with
  | .threadlocalTx => .threadlocal .tlTx
  | .scalableTx | .scalableTxRx => .scalable .tlStx
  | .multiple => .shared c.epTx
  | .single => .shared c.epRx

/-- The branches of `get_rx_endpoint`. -/
def Controller.getRxEndpoint (c : Controller) : Route :=
  match c.endpointType with
  | .scalableTxRx => .scalable .tlSrx
  | _ => .shared c.epRx

/-- The branches of the call made. -/
def Controller.getEndpoint (c : Controller) : Direction → Route
  | .tx => c.getTxEndpoint
  | .rx => c.getRxEndpoint

/-- Where a thread is. The controller of the call in progress comes first. -/
inductive EndpointPc
  /-- Outside of any call. -/
  | idle
  /-- At the test of the slot. -/
  | test (k : ℕ) (dir : Direction)
  /-- At the creation of a thread-local endpoint. -/
  | create (k : ℕ) (dir : Direction) (slot : Slot)
  /-- At `tx_endpoints_.push(ep)`. -/
  | push (k : ℕ) (dir : Direction) (slot : Slot) (w : EndpointWrapper)
  /-- At the pop from the queue. -/
  | pop (k : ℕ) (dir : Direction) (slot : Slot)
  /-- At the assignment of a temporary to the slot. -/
  | assign (k : ℕ) (dir : Direction) (slot : Slot) (temp : StackEndpoint)
  /-- At the destruction of the temporary. -/
  | destroyTemp (k : ℕ) (dir : Direction) (slot : Slot) (temp : StackEndpoint)
  /-- Returning an endpoint. -/
  | ret (k : ℕ) (dir : Direction) (w : EndpointWrapper)
  /-- Throwing "endpoint wrapper pop fail". -/
  | threw (k : ℕ) (dir : Direction)
  /-- At the destructors of the slots that are left. -/
  | exiting (rest : List Slot)
  | exited

/-- A thread. -/
structure ThreadState where
  pc : EndpointPc
  slots : Slot → StackEndpoint

/-- `~stack_endpoint`: what it does to the queues. -/
def StackEndpoint.destruct (x : StackEndpoint) (s : Process) : Process :=
  match x.pool with
  | none => s
  | some pool => s.push pool x.endpoint

/-- The test of the slot: return what it holds, or go and fill it. -/
def ThreadState.testSlot (l : ThreadState) (k : ℕ) (dir : Direction) : Route → EndpointPc
  | .threadlocal slot =>
    if (l.slots slot).endpoint.ep = none then .create k dir slot
    else .ret k dir (l.slots slot).endpoint
  | .scalable slot =>
    if (l.slots slot).endpoint.ep = none then .pop k dir slot
    else .ret k dir (l.slots slot).endpoint
  | .shared w => .ret k dir w

/-- The thread after the move assignment of `temp` to a slot. -/
def ThreadState.assignSlot (l : ThreadState) (k : ℕ) (dir : Direction) (slot : Slot)
    (temp : StackEndpoint) : ThreadState :=
  let (this, other) := (l.slots slot).moveAssign temp
  { pc := .destroyTemp k dir slot other, slots := Function.update l.slots slot this }

/-- The steps of a thread. -/
inductive EndpointStep : ℕ → Process → ThreadState → Process → ThreadState → Prop
  | construct {t : ℕ} {s : Process} {l : ThreadState} (k : ℕ) (hpc : l.pc = .idle)
      (hphase : (s.controllers k).phase = .unborn) :
      EndpointStep t s l (s.modify k fun c => { c with phase := .constructed }) l
  | initializeAs {t : ℕ} {s : Process} {l : ThreadState} (k : ℕ) (type : EndpointType)
      (contexts : ℕ) (dummyCq : Bool) (hpc : l.pc = .idle)
      (hphase : (s.controllers k).phase = .constructed ∨
        (s.controllers k).phase = .initialised)
      (hcalls : (s.controllers k).calls = 0) (htype : type ≠ .scalableTxRx) :
      EndpointStep t s l
        ((s.modify k fun c => c.initializeAs type contexts dummyCq s.creator.length).create k
          (initializeCount contexts)) l
  | destroy {t : ℕ} {s : Process} {l : ThreadState} (k : ℕ) (hpc : l.pc = .idle)
      (hphase : (s.controllers k).phase = .initialised)
      (hcalls : (s.controllers k).calls = 0) :
      EndpointStep t s l
        { s.modify k Controller.destroy with
          closed := s.closed ++ (s.controllers k).cleanedUp } l
  | call {t : ℕ} {s : Process} {l : ThreadState} (k : ℕ) (dir : Direction) (hpc : l.pc = .idle)
      (hphase : (s.controllers k).phase = .initialised) :
      EndpointStep t s l (s.modify k fun c => { c with calls := c.calls + 1 })
        { l with pc := .test k dir }
  | test {t : ℕ} {s : Process} {l : ThreadState} {k : ℕ} {dir : Direction}
      (hpc : l.pc = .test k dir) :
      EndpointStep t s l s
        { l with pc := l.testSlot k dir ((s.controllers k).getEndpoint dir) }
  | create {t : ℕ} {s : Process} {l : ThreadState} {k : ℕ} {dir : Direction} {slot : Slot}
      (hpc : l.pc = .create k dir slot) :
      EndpointStep t s l
        ((s.modify k fun c => { c with pooled := c.pooled ++ [s.creator.length + 1] }).create k 2)
        { l with pc :=
            .push k dir slot ⟨some (s.creator.length + 1), none, some s.creator.length⟩ }
  | push {t : ℕ} {s : Process} {l : ThreadState} {k : ℕ} {dir : Direction} {slot : Slot}
      {w : EndpointWrapper} (hpc : l.pc = .push k dir slot w) :
      EndpointStep t s l (s.push ⟨k, .tx⟩ w) { l with pc := .assign k dir slot ⟨w, none⟩ }
  | pop {t : ℕ} {s : Process} {l : ThreadState} {k : ℕ} {dir : Direction} {slot : Slot}
      {w : EndpointWrapper} {rest : List EndpointWrapper} (hpc : l.pc = .pop k dir slot)
      (hqueue : (s.controllers k).queue dir = w :: rest) :
      EndpointStep t s l (s.modify k fun c => c.setQueue dir rest)
        { l with pc := .assign k dir slot ⟨w, some ⟨k, dir⟩⟩ }
  | popFail {t : ℕ} {s : Process} {l : ThreadState} {k : ℕ} {dir : Direction} {slot : Slot}
      (hpc : l.pc = .pop k dir slot) (hqueue : (s.controllers k).queue dir = []) :
      EndpointStep t s l s { l with pc := .threw k dir }
  | assign {t : ℕ} {s : Process} {l : ThreadState} {k : ℕ} {dir : Direction} {slot : Slot}
      {temp : StackEndpoint} (hpc : l.pc = .assign k dir slot temp) :
      EndpointStep t s l s (l.assignSlot k dir slot temp)
  | destroyTemp {t : ℕ} {s : Process} {l : ThreadState} {k : ℕ} {dir : Direction} {slot : Slot}
      {temp : StackEndpoint} (hpc : l.pc = .destroyTemp k dir slot temp) :
      EndpointStep t s l (temp.destruct s)
        { l with pc := .ret k dir (l.slots slot).endpoint }
  | ret {t : ℕ} {s : Process} {l : ThreadState} {k : ℕ} {dir : Direction} {w : EndpointWrapper}
      (hpc : l.pc = .ret k dir w) :
      EndpointStep t s l (s.modify k fun c => { c with calls := c.calls - 1 })
        { l with pc := .idle }
  | threw {t : ℕ} {s : Process} {l : ThreadState} {k : ℕ} {dir : Direction}
      (hpc : l.pc = .threw k dir) :
      EndpointStep t s l (s.modify k fun c => { c with calls := c.calls - 1 })
        { l with pc := .idle }
  | exit {t : ℕ} {s : Process} {l : ThreadState} (order : List Slot) (hpc : l.pc = .idle)
      (horder : order.Perm [.tlTx, .tlStx, .tlSrx]) :
      EndpointStep t s l s { l with pc := .exiting order }
  | destroySlot {t : ℕ} {s : Process} {l : ThreadState} {slot : Slot} {rest : List Slot}
      (hpc : l.pc = .exiting (slot :: rest)) :
      EndpointStep t s l ((l.slots slot).destruct s)
        { pc := .exiting rest, slots := Function.update l.slots slot .default }
  | exited {t : ℕ} {s : Process} {l : ThreadState} (hpc : l.pc = .exiting []) :
      EndpointStep t s l s { l with pc := .exited }

/-- A thread before its first call. -/
def ThreadState.start : ThreadState := ⟨.idle, fun _ => .default⟩

/-- A process without controllers and with any number of threads. -/
def endpointSystem : ThreadSystem Process ThreadState where
  init c := c.shared = ⟨fun _ => .unborn, [], []⟩ ∧ ∀ l ∈ c.threads, l = .start
  step := EndpointStep

end LibFatbat
