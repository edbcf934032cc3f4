import LibFatbat.Controller.Polling
import LibFatbat.Endpoint.Handles

/-!
# Initialisation step by step

`initialize` of `controller_base` call by call, with the endpoint type read from the environment and
with what `Endpoint.Handles` leaves out: which completion queue is bound to which endpoint and for
which direction, which endpoints are enabled, and where a null pointer is used. libfabric does what
it is asked to; otherwise `initialize` throws and there is no controller to use.

Main results: `initializeController_eq` gives the state in which `initialize` returns, for every
endpoint type but `scalableTxRx`, and `initializeController_scalableTxRx` says that for this one it
does not return.
-/

namespace LibFatbat

/-- `libfabric_endpoint_type`, given the value of `LIBFABRIC_ENDPOINT_TYPE`. -/
def libfabricEndpointType : Option String → EndpointType
  | none => .single
  | some s =>
    if s = "multiple" ∨ atoi s = 1#32 then .multiple
    else if s = "threadlocal" ∨ atoi s = 2#32 then .threadlocalTx
    else if s = "scalableTx" ∨ atoi s = 3#32 then .scalableTx
    else if s = "scalableTxRx" ∨ atoi s = 4#32 then .scalableTxRx
    else .single

/-- `FI_TRANSMIT`, which is `FI_SEND`. -/
def fiTransmit : BitVec 64 := fiSend

/-- A controller and what libfabric was told about its endpoints. -/
structure Bringup where
  controller : ControllerHandles
  fabric : Fabric
  /-- The calls of `fi_ep_bind`: the endpoint, what is bound to it, and the flags. -/
  bound : List (Fid × Fid × BitVec 64)
  /-- The calls of `fi_enable`. -/
  enabled : List Fid
  /-- The endpoint whose address is in `here_`. -/
  here : Option Fid
  /-- How many calls of `get_tx_endpoint` made a thread-local endpoint. -/
  nextThreadEp : ℕ

/-- A controller just constructed. -/
def Bringup.constructed (refuses : Bool) : Bringup :=
  ⟨.constructed, .start refuses, [], [], none, 0⟩

/-- How a call fails. -/
inductive BringupFailure
  /-- A null pointer is dereferenced. -/
  | nullPointer
  deriving DecidableEq

/-- Code of a controller. -/
abbrev ControllerM := EStateM BringupFailure Bringup

/-! ### The calls of libfabric -/

/-- `&p->fid`. -/
def deref : Option Fid → ControllerM Fid
  | none => throw .nullPointer
  | some h => return h

/-- A handle is opened on the domain: `new_endpoint_active` and `create_completion_queue`. -/
def openOnDomain (h : Fid) : ControllerM (Option Fid) := do
  modify fun s => { s with fabric := s.fabric.openOn h .domain }
  return some h

/-- `fi_ep_bind`. -/
def fiEpBind (ep other : Option Fid) (flags : BitVec 64) : ControllerM Unit := do
  let e ← deref ep
  let b ← deref other
  modify fun s => { s with fabric := s.fabric.bind e b, bound := s.bound ++ [(e, b, flags)] }

/-- `bind_address_vector_to_endpoint`. -/
def bindAddressVectorToEndpoint (ep : Option Fid) : ControllerM Unit := do
  let s ← get
  fiEpBind ep s.controller.av 0#64

/-- `bind_queue_to_endpoint`. -/
def bindQueueToEndpoint (ep cq : Option Fid) (cqtype : BitVec 64) : ControllerM Unit :=
  fiEpBind ep cq cqtype

/-- `enable_endpoint`. -/
def enableEndpoint (ep : Option Fid) : ControllerM Unit := do
  let e ← deref ep
  modify fun s => { s with enabled := s.enabled ++ [e] }

/-- `create_rx_endpoint`. -/
def createRxEndpoint : ControllerM FidWrapper := do
  let epRx ← openOnDomain .rxEp
  bindAddressVectorToEndpoint epRx
  let rxCq ← openOnDomain .rxCq
  bindQueueToEndpoint epRx rxCq fiRecv
  return ⟨epRx, rxCq, none⟩

/-- `bind_tx_queue_to_rx_endpoint`. -/
def bindTxQueueToRxEndpoint (ep : Option Fid) : ControllerM (Option Fid) := do
  let txCq ← openOnDomain .rxTxCq
  bindQueueToEndpoint ep txCq fiTransmit
  return txCq

/-- `bind_cq_counter_to_endpoint`. -/
def bindCqCounterToEndpoint (endpoint : Option Fid) : ControllerM Unit := do
  let txCntr ← openOnDomain .txCntr
  modify fun s => { s with controller := { s.controller with txCntr } }
  fiEpBind endpoint txCntr (fiWrite ||| fiTransmit)

/-! ### The parts of `initialize` -/

/-- `eps_->ep_rx_`. -/
def getEpRx : ControllerM FidWrapper := do
  match (← get).controller.eps with
  | none => throw .nullPointer
  | some (_, epRx) => return epRx

/-- `eps_->ep_tx_ = epTx`. -/
def setEpTx (epTx : FidWrapper) : ControllerM Unit := modify fun s =>
  { s with controller := { s.controller with eps := s.controller.eps.map fun e => (epTx, e.2) } }

/-- `eps_->ep_rx_ = epRx`. -/
def setEpRx (epRx : FidWrapper) : ControllerM Unit := modify fun s =>
  { s with controller := { s.controller with eps := s.controller.eps.map fun e => (e.1, epRx) } }

/-- The beginning: the endpoint type, `eps_`, `open_fabric` and `create_address_vector`. -/
def openController (type : EndpointType) : ControllerM Unit := modify fun s =>
  { s with controller := { s.controller with endpointType := type, eps := some (.default, .default)
                                             fabric := some .fabric, domain := some .domain
                                             av := some .av }
           fabric := s.fabric.openFabric }

/-- The receive endpoint, "in all cases except scalable rx". -/
def setupRx (type : EndpointType) : ControllerM Unit :=
  if type = .scalableTxRx then return ()
  else do
    let epRx ← createRxEndpoint
    setEpRx epRx

/-- The transmit queue of the receive endpoint. -/
def setupRxTxQueue (cfg : InitSetup) : ControllerM Unit :=
  if cfg.endpointType = .single then do
    let txCq ← bindTxQueueToRxEndpoint (← getEpRx).ep
    setEpRx { ← getEpRx with tq := txCq }
    if cfg.needsCqCounters then bindCqCounterToEndpoint (← getEpRx).ep else return ()
  else if cfg.endpointType = .scalableTxRx then return ()
  else if cfg.dummyCq then do
    let dummyCq ← bindTxQueueToRxEndpoint (← getEpRx).ep
    setEpRx { ← getEpRx with tq := dummyCq }
  else return ()

/-- The transmit endpoint of endpoint type `multiple`. -/
def setupTxMultiple : ControllerM Unit := do
  let epTx ← openOnDomain .txEp
  let txCq ← openOnDomain .txCq
  bindQueueToEndpoint epTx txCq (fiTransmit ||| fiRecv)
  bindAddressVectorToEndpoint epTx
  enableEndpoint epTx
  setEpTx ⟨epTx, none, txCq⟩

/-- The body of the loop over the transmit contexts. -/
def setupContext (i : ℕ) : ControllerM Unit := do
  -- `fi_tx_context`
  modify fun s => { s with fabric := s.fabric.openOn (.contextEp i) .scalableEp }
  let scalableEpTx := some (.contextEp i)
  let scalableCqTx ← openOnDomain (.contextCq i)
  bindQueueToEndpoint scalableEpTx scalableCqTx fiTransmit
  enableEndpoint scalableEpTx
  let tx : FidWrapper := ⟨scalableEpTx, none, scalableCqTx⟩
  modify fun s => { s with controller :=
    { s.controller with txEndpoints := s.controller.txEndpoints ++ [tx] } }

/-- The loop over the transmit contexts. -/
def setupContexts : List ℕ → ControllerM Unit
  | [] => return ()
  | i :: is => do
    setupContext i
    setupContexts is

/-- The scalable endpoint and its transmit contexts. -/
def setupScalable (contexts : ℕ) : ControllerM Unit := do
  let epSx ← openOnDomain .scalableEp
  bindAddressVectorToEndpoint epSx
  setupContexts (List.range contexts)
  setEpTx ⟨epSx, none, none⟩

/-- The transmit endpoints. -/
def setupTx (cfg : InitSetup) : ControllerM Unit :=
  match cfg.endpointType with
  | .multiple => setupTxMultiple
  -- Each thread creates one on its first call of `get_tx_endpoint`.
  | .threadlocalTx => return ()
  | .scalableTx | .scalableTxRx => setupScalable cfg.contexts
  | .single => return ()

/-- The end: the receive endpoint is enabled, and its address becomes `here_`. -/
def setupHere : ControllerM Unit := do
  enableEndpoint (← getEpRx).ep
  let id ← deref (← getEpRx).ep
  modify fun s => { s with here := some id }

/-- `initialize`. -/
def initializeController (cfg : InitSetup) : ControllerM Unit := do
  openController cfg.endpointType
  setupRx cfg.endpointType
  setupRxTxQueue cfg
  setupTx cfg
  setupHere

/-! ### What `initialize` did when it returns -/

namespace InitSetup

variable (cfg : InitSetup)

/-- What is bound to the receive endpoint. -/
def boundRx : List (Fid × Fid × BitVec 64) :=
  [(.rxEp, .av, 0#64), (.rxEp, .rxCq, fiRecv)] ++
    (if cfg.bindsTxQueue then [(.rxEp, .rxTxCq, fiTransmit)] else []) ++
    if cfg.opensCounter then [(.rxEp, .txCntr, fiWrite ||| fiTransmit)] else []

/-- What is bound to the transmit endpoints. -/
def boundTx : List (Fid × Fid × BitVec 64) :=
  match cfg.endpointType with
  | .single | .threadlocalTx => []
  | .multiple => [(.txEp, .txCq, fiTransmit ||| fiRecv), (.txEp, .av, 0#64)]
  | .scalableTx | .scalableTxRx => (.scalableEp, .av, 0#64) ::
      (List.range cfg.contexts).map fun i => (.contextEp i, .contextCq i, fiTransmit)

/-- The transmit endpoints enabled. -/
def enabledTx : List Fid :=
  match cfg.endpointType with
  | .single | .threadlocalTx => []
  | .multiple => [.txEp]
  | .scalableTx | .scalableTxRx => (List.range cfg.contexts).map .contextEp

/-- The state in which `initialize` returns. -/
def initialized (refuses : Bool) : Bringup :=
  let (controller, fabric) := ControllerHandles.constructed.initialise cfg (.start refuses)
  { controller, fabric
    bound := cfg.boundRx ++ cfg.boundTx
    enabled := cfg.enabledTx ++ [.rxEp]
    here := some .rxEp
    nextThreadEp := 0 }

end InitSetup

/-- The loop makes a context for each number. -/
theorem setupContexts_eq (is : List ℕ) (s : Bringup) :
    setupContexts is s = .ok () { s with
      controller := { s.controller with
        txEndpoints := s.controller.txEndpoints ++ is.map .context }
      fabric := is.foldl Fabric.createContext s.fabric
      bound := s.bound ++ is.map fun i => (.contextEp i, .contextCq i, fiTransmit)
      enabled := s.enabled ++ is.map .contextEp } := by
  induction is generalizing s with
  | nil =>
    simp only [List.map_nil, List.append_nil]
    rfl
  | cons i is ih =>
    refine (ih _).trans ?_
    simp only [List.map_cons, List.append_assoc, List.singleton_append]
    rfl

/-- The scalable endpoint, when the address vector is there. -/
theorem setupScalable_eq (contexts : ℕ) {s : Bringup} (hav : s.controller.av = some .av) :
    setupScalable contexts s = .ok () { s with
      controller := { s.controller with
        eps := s.controller.eps.map fun e => (⟨some .scalableEp, none, none⟩, e.2)
        txEndpoints := s.controller.txEndpoints ++ (List.range contexts).map .context }
      fabric := (List.range contexts).foldl Fabric.createContext s.fabric.createScalableEndpoint
      bound := s.bound ++ [(.scalableEp, .av, 0#64)] ++
        (List.range contexts).map fun i => (.contextEp i, .contextCq i, fiTransmit)
      enabled := s.enabled ++ (List.range contexts).map .contextEp } := by
  obtain ⟨⟨type, eps, txEndpoints, rxEndpoints, txCntr, av, domain, fabric⟩, _, _, _, _, _⟩ := s
  obtain rfl : av = some .av := hav
  refine (Program.bind_of_ok rfl).trans ((Program.bind_of_ok rfl).trans ?_)
  exact Program.bind_of_ok (setupContexts_eq _ _)

/-- `initialize` returns for every endpoint type but `scalableTxRx`. -/
theorem initializeController_eq {cfg : InitSetup} (htype : cfg.endpointType ≠ .scalableTxRx)
    (refuses : Bool) :
    initializeController cfg (.constructed refuses) = .ok () (cfg.initialized refuses) := by
  obtain ⟨type, contexts, dummyCq, needsCqCounters⟩ := cfg
  cases type with
  | single => cases needsCqCounters <;> rfl
  | multiple => cases dummyCq <;> rfl
  | threadlocalTx => cases dummyCq <;> rfl
  | scalableTx =>
    -- only here there is a loop
    cases dummyCq <;>
      refine (Program.bind_of_ok rfl).trans ((Program.bind_of_ok rfl).trans
        ((Program.bind_of_ok rfl).trans ?_)) <;>
      exact (Program.bind_of_ok (setupScalable_eq contexts rfl)).trans rfl
  | scalableTxRx => exact absurd rfl htype

/-- Without a receive endpoint there is nothing to enable. -/
theorem setupHere_null {s : Bringup} (epTx : FidWrapper)
    (heps : s.controller.eps = some (epTx, .default)) : setupHere s = .error .nullPointer s := by
  obtain ⟨⟨type, eps, txEndpoints, rxEndpoints, txCntr, av, domain, fabric⟩, _, _, _, _, _⟩ := s
  obtain rfl : eps = some (epTx, .default) := heps
  rfl

/-- For `scalableTxRx` there is no receive endpoint to enable. -/
theorem initializeController_scalableTxRx {cfg : InitSetup}
    (htype : cfg.endpointType = .scalableTxRx) (refuses : Bool) :
    ∃ s, initializeController cfg (.constructed refuses) = .error .nullPointer s := by
  obtain ⟨type, contexts, dummyCq, needsCqCounters⟩ := cfg
  obtain rfl : type = .scalableTxRx := htype
  refine ⟨_, Eq.trans ((Program.bind_of_ok rfl).trans ((Program.bind_of_ok rfl).trans
    ((Program.bind_of_ok rfl).trans (Program.bind_of_ok (setupScalable_eq contexts ?_)))))
    (setupHere_null ⟨some .scalableEp, none, none⟩ ?_)⟩ <;> rfl

/-- Every endpoint type can be selected. -/
example : ["single", "multiple", "threadlocal", "scalableTx", " 4x"].map
    (fun s => libfabricEndpointType (some s)) =
      [.single, .multiple, .threadlocalTx, .scalableTx, .scalableTxRx] := by
  decide +kernel

end LibFatbat
