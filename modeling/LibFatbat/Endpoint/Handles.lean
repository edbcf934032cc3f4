import LibFatbat.Endpoint.Model
import LibFatbat.Program.Return

/-!
# The handles of one controller

Everything that a `controller_base` opens through libfabric, with what it is opened on and bound to,
from `initialize` over the calls of `get_tx_endpoint` to `~controller_base`. A handle is named after
the call that opens it, and each call opens it once: a controller is initialised at most once here.

The calls of `get_tx_endpoint` are whole calls; `Endpoint.Model` takes them apart into the steps at
which threads interfere. Where libfabric refuses what it is asked to, the code makes a
`fabric_error`, whose constructor terminates the program, so that no controller is destroyed after
it. Slots may hold endpoints of other controllers. The initialisation of a `scalableTxRx` controller
enables a null endpoint, so no controller of that type comes into being.
-/

namespace LibFatbat

/-- A handle, by the call that opens it. -/
inductive Fid
  | fabric
  | domain
  | av
  | txCntr
  /-- The endpoint of `create_rx_endpoint`. -/
  | rxEp
  /-- The completion queue of `create_rx_endpoint`. -/
  | rxCq
  /-- The completion queue of `bind_tx_queue_to_rx_endpoint`. -/
  | rxTxCq
  /-- The transmit endpoint of endpoint type `multiple`. -/
  | txEp
  /-- Its completion queue. -/
  | txCq
  /-- The scalable endpoint. -/
  | scalableEp
  /-- Transmit context `i` of the scalable endpoint. -/
  | contextEp (i : ℕ)
  /-- Its completion queue. -/
  | contextCq (i : ℕ)
  /-- The endpoint of the `n`-th call that makes a thread-local one. -/
  | threadEp (n : ℕ)
  /-- Its completion queue. -/
  | threadCq (n : ℕ)
  deriving DecidableEq

/-- What libfabric knows of the handles. -/
structure Fabric where
  /-- The handles opened, in order. -/
  opened : List Fid
  /-- Pairs of a handle and one that it was opened on or bound to. -/
  uses : List (Fid × Fid)
  /-- The handles closed, in order. -/
  closed : List Fid
  /-- Whether `fi_close` answers `-FI_EBUSY` for a handle that an open one uses. -/
  refuses : Bool

namespace Fabric

/-- No handle is open. -/
def start (refuses : Bool) : Fabric := ⟨[], [], [], refuses⟩

/-- A handle is opened on another. -/
def openOn (f : Fabric) (h on : Fid) : Fabric :=
  { f with opened := f.opened ++ [h], uses := f.uses ++ [(h, on)] }

/-- A handle is bound to another. -/
def bind (f : Fabric) (h other : Fid) : Fabric := { f with uses := f.uses ++ [(h, other)] }

/-- An open handle uses the one given. -/
def inUse (f : Fabric) (h : Fid) : Bool := f.uses.any fun u => u.2 = h && u.1 ∉ f.closed

end Fabric

/-- `struct endpoint_wrapper`. -/
structure FidWrapper where
  ep : Option Fid
  rq : Option Fid
  tq : Option Fid
  deriving DecidableEq

namespace FidWrapper

/-- The default constructor. -/
def default : FidWrapper := ⟨none, none, none⟩

/-- The handles that `cleanup` closes, in its order. -/
def handles (w : FidWrapper) : List Fid := w.ep.toList ++ w.rq.toList ++ w.tq.toList

/-- Transmit context `i`. -/
def context (i : ℕ) : FidWrapper := ⟨some (.contextEp i), none, some (.contextCq i)⟩

/-- The `n`-th thread-local endpoint. -/
def threadlocal (n : ℕ) : FidWrapper := ⟨some (.threadEp n), none, some (.threadCq n)⟩

end FidWrapper

/-- The members of a `controller_base` that hold handles. -/
structure ControllerHandles where
  /-- `endpoint_type_`, once initialised. -/
  endpointType : EndpointType
  /-- `ep_tx_` and `ep_rx_` of `eps_`, unless it is null. -/
  eps : Option (FidWrapper × FidWrapper)
  /-- `tx_endpoints_`. -/
  txEndpoints : List FidWrapper
  /-- `rx_endpoints_`. -/
  rxEndpoints : List FidWrapper
  /-- `txCntr_`. -/
  txCntr : Option Fid
  /-- `av_`. -/
  av : Option Fid
  /-- `fabric_domain_`. -/
  domain : Option Fid
  /-- `fabric_`. -/
  fabric : Option Fid

/-- `controller_base()`. -/
def ControllerHandles.constructed : ControllerHandles where
  endpointType := .single
  eps := none
  txEndpoints := []
  rxEndpoints := []
  txCntr := none
  av := none
  domain := none
  fabric := none

/-! ### Initialisation -/

/-- What `initialize` depends on. -/
structure InitSetup where
  /-- `libfabric_endpoint_type()`. -/
  endpointType : EndpointType
  /-- `threads_allocated`. -/
  contexts : ℕ
  /-- Whether the provider needs a transmit queue on the receive endpoint. -/
  dummyCq : Bool
  /-- `needs_cq_counters()`. -/
  needsCqCounters : Bool

/-- The parts of `open_fabric` and `create_address_vector` that open handles. -/
def Fabric.openFabric (f : Fabric) : Fabric :=
  ({ f with opened := f.opened ++ [Fid.fabric] }.openOn .domain .fabric).openOn .av .domain

/-- `create_rx_endpoint`. -/
def Fabric.createRxEndpoint (f : Fabric) : Fabric :=
  (((f.openOn .rxEp .domain).bind .rxEp .av).openOn .rxCq .domain).bind .rxEp .rxCq

/-- `bind_tx_queue_to_rx_endpoint`. -/
def Fabric.bindTxQueueToRxEndpoint (f : Fabric) : Fabric :=
  (f.openOn .rxTxCq .domain).bind .rxEp .rxTxCq

/-- `bind_cq_counter_to_endpoint`. -/
def Fabric.bindCqCounterToEndpoint (f : Fabric) : Fabric :=
  (f.openOn .txCntr .domain).bind .rxEp .txCntr

/-- The transmit endpoint of endpoint type `multiple`. -/
def Fabric.createTxEndpoint (f : Fabric) : Fabric :=
  (((f.openOn .txEp .domain).openOn .txCq .domain).bind .txEp .txCq).bind .txEp .av

/-- `new_endpoint_scalable`, with the address vector bound. -/
def Fabric.createScalableEndpoint (f : Fabric) : Fabric :=
  (f.openOn .scalableEp .domain).bind .scalableEp .av

/-- The body of the loop over the transmit contexts. -/
def Fabric.createContext (f : Fabric) (i : ℕ) : Fabric :=
  ((f.openOn (.contextEp i) .scalableEp).openOn (.contextCq i) .domain).bind
    (.contextEp i) (.contextCq i)

/-- Whether `initialize` binds a transmit queue to the receive endpoint. -/
def InitSetup.bindsTxQueue (cfg : InitSetup) : Bool := cfg.endpointType = .single || cfg.dummyCq

/-- Whether `initialize` opens the counter. -/
def InitSetup.opensCounter (cfg : InitSetup) : Bool :=
  cfg.endpointType = .single && cfg.needsCqCounters

/-- `ep_rx_` after `initialize`. -/
def InitSetup.epRx (cfg : InitSetup) : FidWrapper :=
  ⟨some .rxEp, some .rxCq, if cfg.bindsTxQueue then some .rxTxCq else none⟩

/-- What `initialize` opens for the endpoint type. -/
def InitSetup.openTx (cfg : InitSetup) (f : Fabric) : Fabric :=
  match cfg.endpointType with
  | .single | .threadlocalTx => f
  | .multiple => f.createTxEndpoint
  | .scalableTx | .scalableTxRx =>
    (List.range cfg.contexts).foldl Fabric.createContext f.createScalableEndpoint

/-- `ep_tx_` after `initialize`. -/
def InitSetup.epTx (cfg : InitSetup) : FidWrapper :=
  match cfg.endpointType with
  | .single | .threadlocalTx => .default
  | .multiple => ⟨some .txEp, none, some .txCq⟩
  | .scalableTx | .scalableTxRx => ⟨some .scalableEp, none, none⟩

/-- What `initialize` pushes to `tx_endpoints_`. -/
def InitSetup.pushed (cfg : InitSetup) : List FidWrapper :=
  match cfg.endpointType with
  | .single | .threadlocalTx | .multiple => []
  | .scalableTx | .scalableTxRx => (List.range cfg.contexts).map .context

/-- `txCntr_` after `initialize`. -/
def InitSetup.txCntr (cfg : InitSetup) : Option Fid :=
  if cfg.opensCounter then some .txCntr else none

/-- `initialize` of a controller just constructed, when libfabric does what it is asked to. -/
def ControllerHandles.initialise (c : ControllerHandles) (cfg : InitSetup) (f : Fabric) :
    ControllerHandles × Fabric :=
  let f := f.openFabric.createRxEndpoint
  let f := if cfg.bindsTxQueue then f.bindTxQueueToRxEndpoint else f
  let f := if cfg.opensCounter then f.bindCqCounterToEndpoint else f
  let f := cfg.openTx f
  ({ c with endpointType := cfg.endpointType
            eps := some (cfg.epTx, cfg.epRx)
            txEndpoints := c.txEndpoints ++ cfg.pushed
            txCntr := cfg.txCntr
            av := some .av
            domain := some .domain
            fabric := some .fabric }, f)

/-! ### Destruction -/

/-- How a destructor fails. -/
inductive TeardownFailure
  /-- A null pointer is dereferenced. -/
  | nullPointer
  /-- `fidclose` makes a `fabric_error`, whose constructor terminates the program. -/
  | fabricError
  deriving DecidableEq

/-- Code that closes handles. -/
abbrev Teardown := EStateM TeardownFailure Fabric

/-- `fidclose`. -/
def fidclose (h : Fid) : Teardown Unit := fun f =>
  if f.refuses && f.inUse h then .error .fabricError f
  else .ok () { f with closed := f.closed ++ [h] }

/-- `fidclose(&p->fid, ..)` for a pointer that may be null. -/
def closePointer : Option Fid → Teardown Unit
  | none => throw .nullPointer
  | some h => fidclose h

/-- Handles are closed one after the other. -/
def closeAll : List Fid → Teardown Unit
  | [] => return ()
  | h :: hs => do
    fidclose h
    closeAll hs

/-- `endpoint_wrapper::cleanup`. -/
def FidWrapper.cleanup (w : FidWrapper) : Teardown Unit := closeAll w.handles

/-- `consume_all([](auto&& ep) { ep.cleanup(); })`. -/
def consumeAll : List FidWrapper → Teardown Unit
  | [] => return ()
  | w :: queue => do
    w.cleanup
    consumeAll queue

/-- The domain. The `try` block around it has a handler for `fabric_error`, which is not reached, as
the program ends with the constructor of the exception. -/
def closeDomain (domain : Option Fid) : Teardown Unit := closePointer domain

/-- `eps_->ep_tx_.cleanup()` and `eps_->ep_rx_.cleanup()`. -/
def closeShared : Option (FidWrapper × FidWrapper) → Teardown Unit
  | none => throw .nullPointer
  | some (epTx, epRx) => do
    epTx.cleanup
    epRx.cleanup

/-- `~controller_base`. -/
def ControllerHandles.destructor (c : ControllerHandles) : Teardown Unit := do
  consumeAll c.txEndpoints
  consumeAll c.rxEndpoints
  closeShared c.eps
  closeAll c.txCntr.toList
  closePointer c.av
  closeDomain c.domain
  closePointer c.fabric

/-! ### Threads -/

/-- What a thread-local slot holds. -/
inductive SlotContent
  | empty
  /-- An endpoint of the controller. -/
  | own (w : FidWrapper)
  /-- An endpoint of another controller. -/
  | other
  deriving DecidableEq

/-- A thread: its slots `tl_tx_` and `tl_stx_`. -/
structure TeardownThread where
  alive : Bool
  tlTx : SlotContent
  tlStx : SlotContent
  deriving DecidableEq

/-- A process, as far as one controller is concerned. -/
structure Site where
  /-- `initialize` has returned. -/
  initialised : Bool
  controller : ControllerHandles
  fabric : Fabric
  threads : List TeardownThread
  /-- How many calls have made a thread-local endpoint. -/
  nextThreadEp : ℕ

/-- The calls of libfabric that make a thread-local endpoint. -/
def Fabric.createThreadlocal (f : Fabric) (n : ℕ) : Fabric :=
  (((f.openOn (.threadCq n) .domain).openOn (.threadEp n) .domain).bind
    (.threadEp n) (.threadCq n)).bind (.threadEp n) .av

/-- The branch of `get_tx_endpoint` for `threadlocalTx`, with an empty slot. -/
def Site.createThreadlocal (s : Site) (i : ℕ) (t : TeardownThread) : Site :=
  let w := FidWrapper.threadlocal s.nextThreadEp
  { s with controller := { s.controller with txEndpoints := s.controller.txEndpoints ++ [w] }
           fabric := s.fabric.createThreadlocal s.nextThreadEp
           threads := s.threads.set i { t with tlTx := .own w }
           nextThreadEp := s.nextThreadEp + 1 }

/-- What happens to a controller before it is destroyed. -/
inductive SiteStep : Site → Site → Prop
  | initialise {s : Site} (cfg : InitSetup) (hfresh : s.initialised = false)
      (htype : cfg.endpointType ≠ .scalableTxRx) :
      SiteStep s { s with initialised := true
                          controller := (s.controller.initialise cfg s.fabric).1
                          fabric := (s.controller.initialise cfg s.fabric).2 }
  /-- `get_tx_endpoint` makes a thread-local endpoint. -/
  | create {s : Site} {i : ℕ} {t : TeardownThread} (hget : s.threads[i]? = some t)
      (halive : t.alive = true) (hinit : s.initialised = true)
      (htype : s.controller.endpointType = .threadlocalTx) (hslot : t.tlTx = .empty) :
      SiteStep s (s.createThreadlocal i t)
  /-- `get_tx_endpoint` pops a transmit context. When there is none it throws, which changes
  nothing. -/
  | pop {s : Site} {i : ℕ} {t : TeardownThread} {w : FidWrapper} {rest : List FidWrapper}
      (hget : s.threads[i]? = some t) (halive : t.alive = true) (hinit : s.initialised = true)
      (htype : s.controller.endpointType = .scalableTx) (hslot : t.tlStx = .empty)
      (hqueue : s.controller.txEndpoints = w :: rest) :
      SiteStep s { s with controller := { s.controller with txEndpoints := rest }
                          threads := s.threads.set i { t with tlStx := .own w } }
  /-- A call of another controller fills a slot. -/
  | elsewhere {s : Site} {i : ℕ} {t t' : TeardownThread} (hget : s.threads[i]? = some t)
      (htx : t'.tlTx = t.tlTx ∨ t.tlTx = .empty ∧ t'.tlTx = .other)
      (hstx : t'.tlStx = t.tlStx ∨ t.tlStx = .empty ∧ t'.tlStx = .other)
      (halive : t.alive = true ∧ t'.alive = true) :
      SiteStep s { s with threads := s.threads.set i t' }
  /-- A thread exits, and a transmit context goes back to the queue. -/
  | exit {s : Site} {i : ℕ} {t : TeardownThread} (hget : s.threads[i]? = some t)
      (halive : t.alive = true) :
      SiteStep s { s with
        controller := { s.controller with
          txEndpoints := s.controller.txEndpoints ++
            match t.tlStx with
            | .own w => [w]
            | .empty | .other => [] }
        threads := s.threads.set i ⟨false, .empty, .empty⟩ }

/-- A controller just constructed, in a process with any number of threads. -/
def Site.Start (s : Site) : Prop :=
  ∃ refuses, s = ⟨false, .constructed, .start refuses, s.threads, 0⟩ ∧
    ∀ t ∈ s.threads, t = ⟨true, .empty, .empty⟩

/-- The states of a controller at its destruction. -/
inductive Site.Reachable : Site → Prop
  | start {s : Site} (h : s.Start) : Reachable s
  | step {s s' : Site} (hs : Reachable s) (h : SiteStep s s') : Reachable s'

end LibFatbat
