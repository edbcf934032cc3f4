import LibFatbat.Concurrent.ThreadSystem
import LibFatbat.Endpoint.Bringup
import LibFatbat.Memory.Registration

/-!
# The endpoints that threads get

Any number of threads over one controller that `initialize` has returned on. A thread calls
`get_tx_endpoint` and `get_rx_endpoint` in any order, for itself, from `poll_for_work_completions`,
which reads the completion queue of what it gets, or from one of the two functions that register
memory on an endpoint. Between the test of a thread-local slot and the pop or the push that fills it
other threads go on.

The slots are empty at first: there is no second controller that could have filled them. Where
libfabric refuses an endpoint or a registration, the program ends. What a thread got and read so far
is part of its state, to be spoken about.

Main result: `endpointsUsable_iff`. Every endpoint type but `scalableTxRx` yields usable endpoints.
-/

open Concurrent

namespace LibFatbat

/-- The flag that a completion queue is bound with. -/
def Direction.flag : Direction → BitVec 64
  | .tx => fiTransmit
  | .rx => fiRecv

/-- The slot that is filled from a queue. -/
def Direction.slot : Direction → Slot
  | .tx => .tlStx
  | .rx => .tlSrx

/-- `get_tx_cq` and `get_rx_cq`. -/
def FidWrapper.cq (w : FidWrapper) : Direction → Option Fid
  | .tx => w.tq
  | .rx => w.rq

/-- `struct stack_endpoint`, with the queue that `pool_` points to. -/
structure StackFid where
  endpoint : FidWrapper
  pool : Option Direction
  deriving DecidableEq

/-- The default constructor of `stack_endpoint`. -/
def StackFid.default : StackFid := ⟨.default, none⟩

/-! ### The getters -/

/-- Where a getter finds its endpoint. -/
inductive Source
  | slot (slot : Slot)
  | shared (w : FidWrapper)

/-- The branches of `get_tx_endpoint`. -/
def EndpointType.getTxEndpoint (type : EndpointType) (epTx epRx : FidWrapper) : Source :=
  match type with
  | .threadlocalTx => .slot .tlTx
  | .scalableTx | .scalableTxRx => .slot .tlStx
  | .multiple => .shared epTx
  | .single => .shared epRx

/-- The branches of `get_rx_endpoint`. -/
def EndpointType.getRxEndpoint (type : EndpointType) (epRx : FidWrapper) : Source :=
  match type with
  | .scalableTxRx => .slot .tlSrx
  | .single | .multiple | .threadlocalTx | .scalableTx => .shared epRx

/-- The branches of a getter, unless `eps_` is null. -/
def ControllerHandles.getEndpoint (c : ControllerHandles) (dir : Direction) : Option Source :=
  c.eps.map fun (epTx, epRx) =>
    match dir with
    | .tx => c.endpointType.getTxEndpoint epTx epRx
    | .rx => c.endpointType.getRxEndpoint epRx

/-- The queue of a direction. -/
def ControllerHandles.queue (c : ControllerHandles) : Direction → List FidWrapper
  | .tx => c.txEndpoints
  | .rx => c.rxEndpoints

/-- The controller with another queue. -/
def Bringup.setQueue (s : Bringup) (dir : Direction) (q : List FidWrapper) : Bringup :=
  { s with controller :=
    match dir with
    | .tx => { s.controller with txEndpoints := q }
    | .rx => { s.controller with rxEndpoints := q } }

/-- `push`. -/
def Bringup.push (s : Bringup) (dir : Direction) (w : FidWrapper) : Bringup :=
  s.setQueue dir (s.controller.queue dir ++ [w])

/-- `~stack_endpoint`. -/
def StackFid.destruct (x : StackFid) (s : Bringup) : Bringup :=
  match x.pool with
  | none => s
  | some dir => s.push dir x.endpoint

/-- How `get_tx_endpoint` makes a thread-local endpoint. -/
def createThreadlocal : ControllerM FidWrapper := do
  let n := (← get).nextThreadEp
  let txCq ← openOnDomain (.threadCq n)
  let epTx ← openOnDomain (.threadEp n)
  bindQueueToEndpoint epTx txCq (fiTransmit ||| fiRecv)
  bindAddressVectorToEndpoint epTx
  enableEndpoint epTx
  modify fun s => { s with nextThreadEp := n + 1 }
  return ⟨epTx, none, txCq⟩

/-! ### Threads -/

/-- The arguments of the functions that register memory, and the value of the key counter. -/
structure RegionRequest where
  ptr : Address
  size : BitVec 64
  deviceId : ℤ
  requestKey : BitVec 64

/-- `make_region` with a controller, which binds what `get_tx_endpoint` returned. -/
def RegistrationSetup.makeControllerRegion (reg : RegistrationSetup Fid) (r : RegionRequest)
    (tx : FidWrapper) : Registering Fid MemoryRegion :=
  reg.makeRegion r.ptr r.size true tx.ep r.deviceId r.requestKey

/-- `memory_context::make_region`, which binds what `get_rx_endpoint` returned. -/
def RegistrationSetup.makeContextRegion (reg : RegistrationSetup Fid) (r : RegionRequest)
    (rx : FidWrapper) : Registering Fid MemorySegment :=
  reg.memorySegment r.ptr r.size true rx.ep r.deviceId r.requestKey

/-- The function that calls the getter for a direction returns, after these calls of libfabric. -/
def RegistrationSetup.Registers (reg : RegistrationSetup Fid) (r : RegionRequest) (w : FidWrapper)
    (calls : List (MrCall Fid)) : Direction → Prop
  | .tx => ∃ region, reg.makeControllerRegion r w [] = .ok region calls
  | .rx => ∃ segment, reg.makeContextRegion r w [] = .ok segment calls

/-- What an endpoint is wanted for. -/
inductive Purpose
  | caller
  | poll
  /-- Registration on an endpoint. -/
  | region (r : RegionRequest)

/-- Where a thread is. -/
inductive GetterPc
  /-- Outside of any call. -/
  | idle
  /-- At the test of the slot, if there is one. -/
  | test (dir : Direction) (p : Purpose)
  /-- At the creation of a thread-local endpoint. -/
  | create (p : Purpose)
  /-- At `tx_endpoints_.push(ep)`. -/
  | push (p : Purpose) (w : FidWrapper)
  /-- At the pop from the queue. -/
  | pop (dir : Direction) (p : Purpose)
  /-- Returning an endpoint. -/
  | ret (dir : Direction) (p : Purpose) (w : FidWrapper)
  /-- Throwing "endpoint wrapper pop fail". -/
  | popFailed
  | exited

/-- A thread. -/
structure GetterThread where
  pc : GetterPc
  slots : Slot → StackFid
  /-- What its calls returned, latest first. -/
  returned : List (Direction × FidWrapper)
  /-- The completion queues that it polled, latest first. -/
  polled : List (Direction × Option Fid)
  /-- The calls that registered memory for it, by the getter that was called for them. -/
  regions : List (Direction × List (MrCall Fid))

namespace GetterThread

/-- A thread before its first call. -/
def start : GetterThread := ⟨.idle, fun _ => .default, [], [], []⟩

/-- The test of the slot: return what it holds, or go and fill it. -/
def testSlot (l : GetterThread) (dir : Direction) (p : Purpose) : Source → GetterPc
  | .shared w => .ret dir p w
  | .slot slot =>
    if (l.slots slot).endpoint.ep = none then
      match slot with
      | .tlTx => .create p
      | .tlStx | .tlSrx => .pop dir p
    else .ret dir p (l.slots slot).endpoint

/-- The slot is assigned and its endpoint returned. -/
def fill (l : GetterThread) (dir : Direction) (p : Purpose) (slot : Slot) (x : StackFid) :
    GetterThread :=
  { l with pc := .ret dir p x.endpoint, slots := Function.update l.slots slot x }

/-- A call returned an endpoint. -/
def got (l : GetterThread) (dir : Direction) (w : FidWrapper) (pc : GetterPc) : GetterThread :=
  { l with pc := pc, returned := (dir, w) :: l.returned }

end GetterThread

/-- The places where `poll_for_work_completions` goes on after polling a queue. -/
def PollsNext : Direction → GetterPc → Prop
  | .tx, pc => pc = .test .rx .poll
  | .rx, pc => pc = .idle ∨ pc = .test .tx .poll

/-- The steps of a thread. -/
inductive GetterStep (reg : RegistrationSetup Fid) :
    Bringup → GetterThread → Bringup → GetterThread → Prop
  | call {s : Bringup} {l : GetterThread} (dir : Direction) (hpc : l.pc = .idle) :
      GetterStep reg s l s { l with pc := .test dir .caller }
  | poll {s : Bringup} {l : GetterThread} (hpc : l.pc = .idle) :
      GetterStep reg s l s { l with pc := .test .tx .poll }
  /-- The function that calls the getter for `dir`, with `get_mrbind()` true. Otherwise it calls
  none. -/
  | region {s : Bringup} {l : GetterThread} (dir : Direction) (r : RegionRequest)
      (hpc : l.pc = .idle) :
      GetterStep reg s l s { l with pc := .test dir (.region r) }
  | test {s : Bringup} {l : GetterThread} {dir : Direction} {p : Purpose} {source : Source}
      (hpc : l.pc = .test dir p) (hsource : s.controller.getEndpoint dir = some source) :
      GetterStep reg s l s { l with pc := l.testSlot dir p source }
  | create {s s' : Bringup} {l : GetterThread} {p : Purpose} {w : FidWrapper}
      (hpc : l.pc = .create p) (hrun : createThreadlocal s = .ok w s') :
      GetterStep reg s l s' { l with pc := .push p w }
  | push {s : Bringup} {l : GetterThread} {p : Purpose} {w : FidWrapper} (hpc : l.pc = .push p w) :
      GetterStep reg s l (s.push .tx w) (l.fill .tx p .tlTx ⟨w, none⟩)
  | pop {s : Bringup} {l : GetterThread} {dir : Direction} {p : Purpose} {w : FidWrapper}
      {rest : List FidWrapper} (hpc : l.pc = .pop dir p)
      (hqueue : s.controller.queue dir = w :: rest) :
      GetterStep reg s l (s.setQueue dir rest) (l.fill dir p dir.slot ⟨w, some dir⟩)
  | popFail {s : Bringup} {l : GetterThread} {dir : Direction} {p : Purpose}
      (hpc : l.pc = .pop dir p) (hqueue : s.controller.queue dir = []) :
      GetterStep reg s l s { l with pc := .popFailed }
  | caught {s : Bringup} {l : GetterThread} (hpc : l.pc = .popFailed) :
      GetterStep reg s l s { l with pc := .idle }
  | ret {s : Bringup} {l : GetterThread} {dir : Direction} {w : FidWrapper}
      (hpc : l.pc = .ret dir .caller w) :
      GetterStep reg s l s (l.got dir w .idle)
  | retPoll {s : Bringup} {l : GetterThread} {dir : Direction} {w : FidWrapper} {pc : GetterPc}
      (hpc : l.pc = .ret dir .poll w) (hnext : PollsNext dir pc) :
      GetterStep reg s l s { l.got dir w pc with polled := (dir, w.cq dir) :: l.polled }
  | retRegion {s : Bringup} {l : GetterThread} {dir : Direction} {r : RegionRequest}
      {w : FidWrapper} {calls : List (MrCall Fid)} (hpc : l.pc = .ret dir (.region r) w)
      (hrun : reg.Registers r w calls dir) :
      GetterStep reg s l s { l.got dir w .idle with regions := (dir, calls) :: l.regions }
  | exit {s : Bringup} {l : GetterThread} (hpc : l.pc = .idle) :
      GetterStep reg s l
        ((l.slots .tlTx).destruct ((l.slots .tlStx).destruct ((l.slots .tlSrx).destruct s)))
        { l with pc := .exited, slots := fun _ => .default }

/-- Threads over a controller that `initialize` returned on, no more of them than it allocated
contexts for. -/
def getterSystem (cfg : InitSetup) (reg : RegistrationSetup Fid) :
    ThreadSystem Bringup GetterThread where
  init c := (∃ refuses, initializeController cfg (.constructed refuses) = .ok () c.shared) ∧
    (∀ l ∈ c.threads, l = .start) ∧ c.threads.length ≤ cfg.contexts
  step _ := GetterStep reg

/-! ### What is claimed of them -/

/-- The endpoint is enabled, and its completion queue for the direction is bound to it. -/
def Usable (s : Bringup) (dir : Direction) (w : FidWrapper) : Prop :=
  ∃ ep cq flags, w.ep = some ep ∧ w.cq dir = some cq ∧ ep ∈ s.enabled ∧
    (ep, cq, flags) ∈ s.bound ∧ flags &&& dir.flag ≠ 0#64

/-- What a thread got is usable, and what it polls are the queues of what it got. -/
structure Served (s : Bringup) (l : GetterThread) : Prop where
  usable : ∀ dir w, (dir, w) ∈ l.returned → Usable s dir w
  polled : ∀ dir q, (dir, q) ∈ l.polled → q ≠ none ∧ ∀ w, (dir, w) ∈ l.returned → q = w.cq dir
  popped : l.pc ≠ .popFailed

/-- `initialize` uses no null pointer, and every thread is served at any time. -/
def EndpointsUsable (cfg : InitSetup) : Prop :=
  (∀ refuses s, initializeController cfg (.constructed refuses) ≠ .error .nullPointer s) ∧
    ∀ reg c, (getterSystem cfg reg).Reachable c → ∀ l ∈ c.threads, Served c.shared l

/-! ### The endpoints of a controller -/

namespace InitSetup

variable (cfg : InitSetup)

/-- What was said to libfabric in `initialize`, and the members that do not change afterwards. -/
structure Holds (s : Bringup) : Prop where
  type : s.controller.endpointType = cfg.endpointType
  eps : s.controller.eps = some (cfg.epTx, cfg.epRx)
  av : s.controller.av = some .av
  here : s.here = some .rxEp
  boundRx : cfg.boundRx ⊆ s.bound
  boundTx : cfg.boundTx ⊆ s.bound
  enabledTx : cfg.enabledTx ⊆ s.enabled
  enabledRx : Fid.rxEp ∈ s.enabled
  contexts : cfg.endpointType = .scalableTx →
    ∀ w ∈ s.controller.txEndpoints, ∃ i < cfg.contexts, w = .context i

/-- A thread-local endpoint that was made. -/
def Made (s : Bringup) (w : FidWrapper) : Prop :=
  ∃ n, w = .threadlocal n ∧ .threadEp n ∈ s.enabled ∧
    (.threadEp n, .threadCq n, fiTransmit ||| fiRecv) ∈ s.bound

/-- The endpoints that a getter may return. -/
def Provides (s : Bringup) (w : FidWrapper) : Direction → Prop
  | .rx => w = cfg.epRx
  | .tx =>
    match cfg.endpointType with
    | .single => w = cfg.epRx
    | .multiple => w = cfg.epTx
    | .threadlocalTx => Made s w
    | .scalableTx | .scalableTxRx => ∃ i < cfg.contexts, w = .context i

end InitSetup

variable {cfg : InitSetup} {reg : RegistrationSetup Fid} {s s' : Bringup} {l l' : GetterThread}

/-- `initialize` leaves all in place. -/
theorem InitSetup.holds_initialized (refuses : Bool) : cfg.Holds (cfg.initialized refuses) where
  type := rfl
  eps := rfl
  av := rfl
  here := rfl
  boundRx := List.subset_append_left _ _
  boundTx := List.subset_append_right _ _
  enabledTx := List.subset_append_left _ _
  enabledRx := List.mem_append_right _ (List.mem_singleton_self _)
  contexts hscalable w hw := by
    have hpushed : w ∈ cfg.pushed := hw
    rw [InitSetup.pushed, hscalable] at hpushed
    obtain ⟨i, hi, rfl⟩ := List.mem_map.mp hpushed
    exact ⟨i, List.mem_range.mp hi, rfl⟩

/-- What a getter may return is usable. -/
theorem InitSetup.Holds.usable (h : cfg.Holds s) (htype : cfg.endpointType ≠ .scalableTxRx)
    {dir : Direction} {w : FidWrapper} (hw : cfg.Provides s w dir) : Usable s dir w := by
  cases dir with
  | rx =>
    obtain rfl : w = cfg.epRx := hw
    exact ⟨.rxEp, .rxCq, fiRecv, rfl, rfl, h.enabledRx, h.boundRx (by simp [InitSetup.boundRx]),
      by decide⟩
  | tx =>
    unfold InitSetup.Provides at hw
    have hbound := h.boundTx
    have henabled := h.enabledTx
    unfold InitSetup.boundTx at hbound
    unfold InitSetup.enabledTx at henabled
    cases hcfg : cfg.endpointType with
    | single =>
      -- the receive endpoint serves both directions, with a queue for each
      simp only [hcfg] at hw
      subst hw
      have hqueue : cfg.bindsTxQueue = true := by simp [InitSetup.bindsTxQueue, hcfg]
      refine ⟨.rxEp, .rxTxCq, fiTransmit, rfl, if_pos hqueue, h.enabledRx, h.boundRx ?_, by decide⟩
      simp [InitSetup.boundRx, hqueue]
    | multiple =>
      simp only [hcfg, InitSetup.epTx] at hw hbound henabled
      subst hw
      exact ⟨.txEp, .txCq, fiTransmit ||| fiRecv, rfl, rfl, henabled (by simp),
        hbound (by simp), by decide⟩
    | threadlocalTx =>
      -- made by the thread itself, after `initialize`
      simp only [hcfg] at hw
      obtain ⟨n, rfl, hep, hcq⟩ := hw
      exact ⟨.threadEp n, .threadCq n, fiTransmit ||| fiRecv, rfl, rfl, hep, hcq, by decide⟩
    | scalableTx =>
      simp only [hcfg] at hw hbound henabled
      obtain ⟨i, hi, rfl⟩ := hw
      refine ⟨.contextEp i, .contextCq i, fiTransmit, rfl, rfl, henabled ?_, hbound ?_, by decide⟩
      · exact List.mem_map_of_mem (List.mem_range.mpr hi)
      · exact List.mem_cons_of_mem _
          (List.mem_map_of_mem (f := fun i => (Fid.contextEp i, Fid.contextCq i, fiTransmit))
            (List.mem_range.mpr hi))
    | scalableTxRx => exact absurd hcfg htype

/-- libfabric is told more and more. -/
def Bringup.Grows (s s' : Bringup) : Prop := s.bound ⊆ s'.bound ∧ s.enabled ⊆ s'.enabled

theorem Bringup.Grows.refl (s : Bringup) : s.Grows s :=
  ⟨List.Subset.refl _, List.Subset.refl _⟩

/-- An endpoint that was made stays made. -/
theorem InitSetup.Made.mono {w : FidWrapper} (h : InitSetup.Made s w) (hgrows : s.Grows s') :
    InitSetup.Made s' w := by
  obtain ⟨n, hn, hep, hcq⟩ := h
  exact ⟨n, hn, hgrows.2 hep, hgrows.1 hcq⟩

theorem InitSetup.Provides.mono {w : FidWrapper} {dir : Direction} (h : cfg.Provides s w dir)
    (hgrows : s.Grows s') : cfg.Provides s' w dir := by
  cases dir with
  | rx => exact h
  | tx =>
    unfold InitSetup.Provides at h ⊢
    cases hcfg : cfg.endpointType with
    | threadlocalTx =>
      simp only [hcfg] at h ⊢
      exact h.mono hgrows
    | single | multiple | scalableTx | scalableTxRx => simpa only [hcfg] using h

/-! ### What a thread holds -/

/-- What a call for a direction returns, once the slot is filled if there is one. -/
def InitSetup.own (cfg : InitSetup) (slots : Slot → StackFid) : Direction → Option FidWrapper
  | .rx => some cfg.epRx
  | .tx =>
    match cfg.endpointType with
    | .single => some cfg.epRx
    | .multiple => some cfg.epTx
    | .threadlocalTx => if slots .tlTx = .default then none else some (slots .tlTx).endpoint
    | .scalableTx | .scalableTxRx =>
      if slots .tlStx = .default then none else some (slots .tlStx).endpoint

/-- What is known at each place of a getter. -/
def GetterPc.Known (cfg : InitSetup) (s : Bringup) (slots : Slot → StackFid) : GetterPc → Prop
  | .idle | .test _ _ | .popFailed | .exited => True
  | .create _ => cfg.endpointType = .threadlocalTx ∧ slots .tlTx = .default
  | .push _ w =>
    cfg.endpointType = .threadlocalTx ∧ slots .tlTx = .default ∧ InitSetup.Made s w
  | .pop dir _ => dir = .tx ∧ cfg.endpointType = .scalableTx ∧ slots .tlStx = .default
  | .ret dir _ w => cfg.own slots dir = some w

/-- What the slots hold. -/
structure InitSetup.Slots (cfg : InitSetup) (s : Bringup) (slots : Slot → StackFid) : Prop where
  tlTx : slots .tlTx = .default ∨ cfg.endpointType = .threadlocalTx ∧
    (slots .tlTx).pool = none ∧ Made s (slots .tlTx).endpoint
  tlStx : slots .tlStx = .default ∨ cfg.endpointType = .scalableTx ∧
    ∃ i < cfg.contexts, slots .tlStx = ⟨.context i, some .tx⟩
  tlSrx : slots .tlSrx = .default

/-- The invariant of a thread. -/
structure GetterThread.Inv (cfg : InitSetup) (reg : RegistrationSetup Fid) (s : Bringup)
    (l : GetterThread) : Prop where
  slots : cfg.Slots s l.slots
  known : l.pc.Known cfg s l.slots
  provided : ∀ dir w, (dir, w) ∈ l.returned → cfg.Provides s w dir
  own : l.pc ≠ .exited → ∀ dir w, (dir, w) ∈ l.returned → cfg.own l.slots dir = some w
  unique : ∀ dir w w', (dir, w) ∈ l.returned → (dir, w') ∈ l.returned → w = w'
  polled : ∀ dir q, (dir, q) ∈ l.polled → ∃ w, (dir, w) ∈ l.returned ∧ q = w.cq dir
  regions : ∀ dir calls, (dir, calls) ∈ l.regions →
    ∃ w r, (dir, w) ∈ l.returned ∧ reg.Registers r w calls dir

/-- What a call returns is one of the endpoints that it may return. -/
theorem InitSetup.Slots.provides (h : cfg.Slots s l.slots) {dir : Direction} {w : FidWrapper}
    (hown : cfg.own l.slots dir = some w) : cfg.Provides s w dir := by
  cases dir with
  -- receives have one endpoint for all threads
  | rx => exact (Option.some.inj hown).symm
  | tx =>
    unfold own at hown
    unfold Provides
    cases hcfg : cfg.endpointType with
    | single | multiple =>
      simp only [hcfg] at hown ⊢
      exact (Option.some.inj hown).symm
    | threadlocalTx =>
      -- the slot of the thread, filled when it was created
      simp only [hcfg] at hown ⊢
      rcases h.tlTx with hslot | ⟨-, -, hmade⟩
      · rw [if_pos hslot] at hown
        cases hown
      · split at hown
        · cases hown
        · exact Option.some.inj hown ▸ hmade
    | scalableTx | scalableTxRx =>
      -- the slot of the thread, filled from the queue of transmit contexts
      simp only [hcfg] at hown ⊢
      rcases h.tlStx with hslot | ⟨-, i, hi, hslot⟩
      · rw [if_pos hslot] at hown
        cases hown
      · split at hown
        · cases hown
        · rw [hslot] at hown
          exact ⟨i, hi, (Option.some.inj hown).symm⟩

/-- The slots that matter are empty when their endpoints are. -/
theorem InitSetup.Slots.default_iff (h : cfg.Slots s l.slots) (slot : Slot) :
    (l.slots slot).endpoint.ep = none ↔ l.slots slot = .default := by
  constructor
  · intro hep
    cases slot with
    | tlTx =>
      refine h.tlTx.resolve_right ?_
      rintro ⟨-, -, n, hn, -⟩
      rw [hn] at hep
      cases hep
    | tlStx =>
      refine h.tlStx.resolve_right ?_
      rintro ⟨-, i, -, hi⟩
      rw [hi] at hep
      cases hep
    | tlSrx => exact h.tlSrx
  · intro hslot
    rw [hslot]
    rfl

/-- The test of a slot. -/
theorem GetterThread.known_testSlot (hs : cfg.Holds s) (htype : cfg.endpointType ≠ .scalableTxRx)
    (hslots : cfg.Slots s l.slots) {dir : Direction} {source : Source} (p : Purpose)
    (hsource : s.controller.getEndpoint dir = some source) :
    (l.testSlot dir p source).Known cfg s l.slots := by
  have hempty := hslots.default_iff
  unfold ControllerHandles.getEndpoint at hsource
  rw [hs.eps, hs.type] at hsource
  obtain rfl := Option.some.inj hsource
  -- receiving always has the shared endpoint; for sending the type decides where it is looked for
  cases dir with
  | rx =>
    have hshared : cfg.endpointType.getRxEndpoint cfg.epRx = .shared cfg.epRx := by
      cases hcfg : cfg.endpointType <;> first | rfl | exact absurd hcfg htype
    show (l.testSlot .rx p (cfg.endpointType.getRxEndpoint cfg.epRx)).Known cfg s l.slots
    rw [hshared]
    rfl
  | tx =>
    show (l.testSlot .tx p (cfg.endpointType.getTxEndpoint cfg.epTx cfg.epRx)).Known cfg s l.slots
    cases hcfg : cfg.endpointType with
    | single | multiple =>
      show cfg.own l.slots .tx = some _
      simp only [InitSetup.own, hcfg]
    | threadlocalTx =>
      -- an empty slot is filled, and any other is the thread's own
      simp only [EndpointType.getTxEndpoint, GetterThread.testSlot, hempty]
      split
      · exact ⟨hcfg, by assumption⟩
      · next hslot =>
        show cfg.own l.slots .tx = some _
        simp only [InitSetup.own, hcfg]
        exact if_neg hslot
    | scalableTx =>
      simp only [EndpointType.getTxEndpoint, GetterThread.testSlot, hempty]
      split
      · exact ⟨rfl, hcfg, by assumption⟩
      · next hslot =>
        show cfg.own l.slots .tx = some _
        simp only [InitSetup.own, hcfg]
        exact if_neg hslot
    | scalableTxRx => exact absurd hcfg htype

/-! ### Steps -/

theorem InitSetup.Slots.mono (h : cfg.Slots s l.slots) (hgrows : s.Grows s') :
    cfg.Slots s' l.slots where
  tlTx := h.tlTx.imp_right fun ⟨htype, hpool, hmade⟩ => ⟨htype, hpool, hmade.mono hgrows⟩
  tlStx := h.tlStx
  tlSrx := h.tlSrx

theorem GetterThread.Inv.mono (h : l.Inv cfg reg s) (hgrows : s.Grows s') : l.Inv cfg reg s' where
  slots := h.slots.mono hgrows
  known := by
    have hknown := h.known
    cases hpc : l.pc with
    | push p w =>
      rw [hpc] at hknown
      exact ⟨hknown.1, hknown.2.1, hknown.2.2.mono hgrows⟩
    | idle | test | create | pop | ret | popFailed | exited => rwa [hpc] at hknown
  provided dir w hw := (h.provided dir w hw).mono hgrows
  own := h.own
  unique := h.unique
  polled := h.polled
  regions := h.regions

/-- A thread goes to another place. -/
theorem GetterThread.Inv.move (h : l.Inv cfg reg s) (hpc : l.pc ≠ .exited) {pc : GetterPc}
    (hknown : pc.Known cfg s l.slots) : { l with pc := pc }.Inv cfg reg s where
  slots := h.slots
  known := hknown
  provided := h.provided
  own _ := h.own hpc
  unique := h.unique
  polled := h.polled
  regions := h.regions

/-- A call returns. -/
theorem GetterThread.Inv.got (h : l.Inv cfg reg s) {dir : Direction} {p : Purpose} {w : FidWrapper}
    (hpc : l.pc = .ret dir p w) {pc : GetterPc} (hknown : pc.Known cfg s l.slots) :
    (l.got dir w pc).Inv cfg reg s := by
  have hw : cfg.own l.slots dir = some w := by
    -- what is about to be returned is the thread's own endpoint
    have hknown' := h.known
    rwa [hpc] at hknown'
  have hown : ∀ dir' w', (dir', w') ∈ (dir, w) :: l.returned → cfg.own l.slots dir' = some w' := by
    intro dir' w' hmem
    rcases List.mem_cons.mp hmem with heq | hmem
    · obtain ⟨rfl, rfl⟩ := Prod.mk.inj heq
      exact hw
    · exact h.own (by rw [hpc]; exact GetterPc.noConfusion) dir' w' hmem
  exact
    { slots := h.slots
      known := hknown
      provided := fun dir' w' hmem => h.slots.provides (hown dir' w' hmem)
      -- two calls in one direction return the same, which `own` determines
      own := fun _ => hown
      unique := fun dir' w₁ w₂ h₁ h₂ =>
        Option.some.inj ((hown dir' w₁ h₁).symm.trans (hown dir' w₂ h₂))
      polled := fun dir' q hq => by
        obtain ⟨w', hmem, hcq⟩ := h.polled dir' q hq
        exact ⟨w', List.mem_cons_of_mem _ hmem, hcq⟩
      regions := fun dir' calls hcalls => by
        obtain ⟨w', r, hmem, hreg⟩ := h.regions dir' calls hcalls
        exact ⟨w', r, List.mem_cons_of_mem _ hmem, hreg⟩ }

/-- A slot is filled. Before, calls for transmission had returned nothing. -/
theorem GetterThread.Inv.fill (h : l.Inv cfg reg s) (hpc : l.pc ≠ .exited) {slot : Slot}
    {x : StackFid} (p : Purpose) (hnone : cfg.own l.slots .tx = none)
    (hslots : cfg.Slots s (Function.update l.slots slot x))
    (hown : cfg.own (Function.update l.slots slot x) .tx = some x.endpoint) :
    (l.fill .tx p slot x).Inv cfg reg s where
  slots := hslots
  known := hown
  provided := h.provided
  own _ dir w hw := by
    have hbefore := h.own hpc dir w hw
    cases dir with
    | tx =>
      rw [hnone] at hbefore
      cases hbefore
    | rx => exact hbefore
  unique := h.unique
  polled := h.polled
  regions := h.regions

/-- How a thread-local endpoint is made. -/
theorem createThreadlocal_eq (hav : s.controller.av = some .av) :
    createThreadlocal s = .ok (.threadlocal s.nextThreadEp) { s with
      fabric := s.fabric.createThreadlocal s.nextThreadEp
      bound := s.bound ++ [(.threadEp s.nextThreadEp, .threadCq s.nextThreadEp,
        fiTransmit ||| fiRecv), (.threadEp s.nextThreadEp, .av, 0#64)]
      enabled := s.enabled ++ [.threadEp s.nextThreadEp]
      nextThreadEp := s.nextThreadEp + 1 } := by
  obtain ⟨⟨type, eps, txEndpoints, rxEndpoints, txCntr, av, domain, fabric⟩, _, bound, _, _, _⟩ := s
  obtain rfl : av = some .av := hav
  -- the two calls of bind append one entry each
  have hbound : ∀ a b : Fid × Fid × BitVec 64, (bound ++ [a]) ++ [b] = bound ++ [a, b] :=
    fun a b => List.append_assoc bound [a] [b]
  simp only [← hbound]
  rfl

/-- Another queue leaves the rest as it was. -/
theorem Bringup.grows_setQueue (s : Bringup) (dir : Direction) (q : List FidWrapper) :
    s.Grows (s.setQueue dir q) :=
  ⟨List.Subset.refl _, List.Subset.refl _⟩

theorem InitSetup.Holds.setQueue (h : cfg.Holds s) {dir : Direction} {q : List FidWrapper}
    (hq : dir = .tx → cfg.endpointType = .scalableTx →
      ∀ w ∈ q, ∃ i < cfg.contexts, w = .context i) :
    cfg.Holds (s.setQueue dir q) := by
  cases dir with
  | tx => exact { h with contexts := hq rfl }
  | rx => exact { h with contexts := h.contexts }

/-- A thread that exits puts its transmit context back. -/
theorem InitSetup.Slots.destruct_eq (hslots : cfg.Slots s l.slots) :
    (l.slots .tlTx).destruct ((l.slots .tlStx).destruct ((l.slots .tlSrx).destruct s)) =
      (l.slots .tlStx).destruct s := by
  have htlTx : (l.slots .tlTx).pool = none := by
    rcases hslots.tlTx with hslot | ⟨-, hpool, -⟩
    · rw [hslot]
      rfl
    · exact hpool
  -- nothing is pushed without a queue to push to
  have hnone : ∀ (x : StackFid) (t : Bringup), x.pool = none → x.destruct t = t := by
    intro x t hpool
    unfold StackFid.destruct
    rw [hpool]
  rw [hnone _ _ htlTx, hslots.tlSrx, hnone _ s rfl]

theorem InitSetup.Holds.destruct (h : cfg.Holds s) (hslots : cfg.Slots s l.slots) :
    cfg.Holds ((l.slots .tlStx).destruct s) ∧ s.Grows ((l.slots .tlStx).destruct s) := by
  rcases hslots.tlStx with hslot | ⟨-, i, hi, hslot⟩
  · rw [hslot]
    exact ⟨h, .refl s⟩
  · rw [hslot]
    have hpushed : cfg.Holds (s.push .tx (.context i)) := by
      refine h.setQueue fun _ htype w hw => ?_
      rcases List.mem_append.mp hw with hw | hw
      · exact h.contexts htype w hw
      · exact ⟨i, hi, List.mem_singleton.mp hw⟩
    exact ⟨hpushed, s.grows_setQueue _ _⟩

/-- A step keeps what holds of the controller, and libfabric is not told less. -/
theorem GetterStep.holds (hs : cfg.Holds s) (hl : l.Inv cfg reg s) (h : GetterStep reg s l s' l') :
    cfg.Holds s' ∧ s.Grows s' := by
  have hknown := hl.known
  cases h with
  | create hpc hrun =>
    rw [createThreadlocal_eq hs.av] at hrun
    obtain ⟨rfl, rfl⟩ := EStateM.Result.ok.inj hrun
    have hgrows : s.Grows { s with
        fabric := s.fabric.createThreadlocal s.nextThreadEp
        bound := s.bound ++ [(.threadEp s.nextThreadEp, .threadCq s.nextThreadEp,
          fiTransmit ||| fiRecv), (.threadEp s.nextThreadEp, .av, 0#64)]
        enabled := s.enabled ++ [.threadEp s.nextThreadEp]
        nextThreadEp := s.nextThreadEp + 1 } :=
      ⟨List.subset_append_left _ _, List.subset_append_left _ _⟩
    exact ⟨{ hs with
      boundRx := List.Subset.trans hs.boundRx hgrows.1
      boundTx := List.Subset.trans hs.boundTx hgrows.1
      enabledTx := List.Subset.trans hs.enabledTx hgrows.2
      enabledRx := hgrows.2 hs.enabledRx }, hgrows⟩
  | push hpc =>
    -- with thread-local endpoints there are no contexts in the queue
    rw [hpc] at hknown
    refine ⟨hs.setQueue fun _ htype => ?_, s.grows_setQueue _ _⟩
    exact absurd (hknown.1.symm.trans htype) (by decide)
  | pop hpc hqueue =>
    rw [hpc] at hknown
    obtain ⟨rfl, htype, -⟩ := hknown
    refine ⟨hs.setQueue fun _ _ w hw => hs.contexts htype w ?_, s.grows_setQueue _ _⟩
    have hqueue : s.controller.txEndpoints = _ := hqueue
    rw [hqueue]
    exact List.mem_cons_of_mem _ hw
  | exit => exact hl.slots.destruct_eq ▸ hs.destruct hl.slots
  | call | poll | region | test | popFail | caught | ret | retPoll | retRegion =>
    exact ⟨hs, .refl s⟩

/-- A step keeps the invariant of its thread. -/
theorem GetterStep.inv (htype : cfg.endpointType ≠ .scalableTxRx) (hs : cfg.Holds s)
    (hl : l.Inv cfg reg s) (h : GetterStep reg s l s' l') : l'.Inv cfg reg s' := by
  obtain ⟨-, hgrows⟩ := h.holds hs hl
  have hknown := hl.known
  have hne : ∀ {pc : GetterPc}, l.pc = pc → pc ≠ .exited → l.pc ≠ .exited := fun h h' => h ▸ h'
  cases h with
  | call _ hpc | poll hpc | region _ _ hpc | popFail hpc | caught hpc =>
    exact hl.move (hne hpc GetterPc.noConfusion) trivial
  | test hpc hsource =>
    exact hl.move (hne hpc GetterPc.noConfusion)
      (GetterThread.known_testSlot hs htype hl.slots _ hsource)
  | create hpc hrun =>
    rw [hpc] at hknown
    refine (hl.mono hgrows).move (hne hpc GetterPc.noConfusion) ⟨hknown.1, hknown.2, ?_⟩
    rw [createThreadlocal_eq hs.av] at hrun
    obtain ⟨rfl, rfl⟩ := EStateM.Result.ok.inj hrun
    exact ⟨s.nextThreadEp, rfl, by simp, by simp⟩
  | @push _ p w hpc =>
    rw [hpc] at hknown
    obtain ⟨hcfg, hslot, hmade⟩ := hknown
    have hfilled : (⟨w, none⟩ : StackFid) ≠ .default := by
      obtain ⟨n, rfl, -⟩ := hmade
      exact fun h => by cases h
    have hnone : cfg.own l.slots .tx = none := by simp [InitSetup.own, hcfg, hslot]
    refine (hl.mono hgrows).fill (hne hpc GetterPc.noConfusion) p hnone ?_ ?_
    · exact
        { tlTx := .inr ⟨hcfg, by simp, by simpa using hmade.mono hgrows⟩
          tlStx := by simpa using hl.slots.tlStx
          tlSrx := by simpa using hl.slots.tlSrx }
    · simp [InitSetup.own, hcfg, hfilled]
  | @pop _ dir p w rest hpc hqueue =>
    rw [hpc] at hknown
    obtain ⟨rfl, hcfg, hslot⟩ := hknown
    have hqueue : s.controller.txEndpoints = w :: rest := hqueue
    obtain ⟨i, hi, rfl⟩ := hs.contexts hcfg w (hqueue ▸ List.mem_cons_self)
    have hfilled : (⟨.context i, some .tx⟩ : StackFid) ≠ .default := fun h => by cases h
    have hnone : cfg.own l.slots .tx = none := by simp [InitSetup.own, hcfg, hslot]
    refine (hl.mono hgrows).fill (hne hpc GetterPc.noConfusion) p hnone ?_ ?_
    · exact
        { tlTx := by simpa [Direction.slot] using (hl.mono hgrows).slots.tlTx
          tlStx := .inr ⟨hcfg, i, hi, by simp [Direction.slot]⟩
          tlSrx := by simpa [Direction.slot] using hl.slots.tlSrx }
    · simp [InitSetup.own, hcfg, hfilled, Direction.slot]
  | ret hpc => exact hl.got hpc trivial
  | @retPoll _ dir w pc hpc hnext =>
    have hgot : (l.got dir w pc).Inv cfg reg s := by
      refine hl.got hpc ?_
      cases dir with
      | tx =>
        obtain rfl : pc = _ := hnext
        trivial
      | rx => rcases hnext with rfl | rfl <;> trivial
    -- the queue that is polled is one of the endpoint just returned
    refine { hgot with polled := fun dir' q hq => ?_ }
    rcases List.mem_cons.mp hq with heq | hq
    · obtain ⟨rfl, rfl⟩ := Prod.mk.inj heq
      exact ⟨w, List.mem_cons_self, rfl⟩
    · exact hgot.polled dir' q hq
  | @retRegion _ dir r w calls hpc hrun =>
    have hgot : (l.got dir w .idle).Inv cfg reg s := hl.got hpc trivial
    refine { hgot with regions := fun dir' calls' hcalls => ?_ }
    rcases List.mem_cons.mp hcalls with heq | hcalls
    · obtain ⟨rfl, rfl⟩ := Prod.mk.inj heq
      exact ⟨w, r, List.mem_cons_self, hrun⟩
    · exact hgot.regions dir' calls' hcalls
  | exit hpc =>
    -- the slots are empty again, and no call follows that could return anything else
    have hmono := hl.mono hgrows
    exact
      { slots := ⟨.inl rfl, .inl rfl, rfl⟩
        known := trivial
        provided := hmono.provided
        own := fun h => absurd rfl h
        unique := hmono.unique
        polled := hmono.polled
        regions := hmono.regions }

/-- Nothing but `scalableTxRx` prevents `initialize` from returning. -/
theorem initializeController_ok {refuses : Bool}
    (h : initializeController cfg (.constructed refuses) = .ok () s) :
    cfg.endpointType ≠ .scalableTxRx ∧ s = cfg.initialized refuses := by
  by_cases htype : cfg.endpointType = .scalableTxRx
  · obtain ⟨t, hrun⟩ := initializeController_scalableTxRx htype refuses
    rw [hrun] at h
    cases h
  · rw [initializeController_eq htype refuses] at h
    exact ⟨htype, (EStateM.Result.ok.inj h).2.symm⟩

variable {c : Config Bringup GetterThread}

/-- What holds in every state that threads reach. -/
theorem getterSystem_inv (hc : (getterSystem cfg reg).Reachable c) :
    cfg.endpointType ≠ .scalableTxRx ∧ cfg.Holds c.shared ∧
      ∀ (i : ℕ) (l : GetterThread), c.threads[i]? = some l → l.Inv cfg reg c.shared := by
  -- the thread that moves knows where it is, and the others only see the controller grow
  refine hc.invariant (I := fun c => cfg.endpointType ≠ .scalableTxRx ∧ cfg.Holds c.shared ∧
    ∀ (i : ℕ) (l : GetterThread), c.threads[i]? = some l → l.Inv cfg reg c.shared) ?_ ?_
  · rintro c ⟨⟨refuses, hrun⟩, hstart, -⟩
    obtain ⟨htype, hshared⟩ := initializeController_ok hrun
    refine ⟨htype, hshared ▸ cfg.holds_initialized refuses, fun i l hl => ?_⟩
    obtain rfl := hstart l (List.mem_of_getElem? hl)
    exact
      { slots := ⟨.inl rfl, .inl rfl, rfl⟩
        known := trivial
        provided := by simp [GetterThread.start]
        own := by simp [GetterThread.start]
        unique := by simp [GetterThread.start]
        polled := by simp [GetterThread.start]
        regions := by simp [GetterThread.start] }
  · rintro c _ - ⟨htype, hs, hthreads⟩ ⟨i, hget, hstep⟩
    have hl := hthreads i _ hget
    obtain ⟨hs', hgrows⟩ := GetterStep.holds hs hl hstep
    refine ⟨htype, hs', fun j k hj => ?_⟩
    rcases ThreadSystem.getElem?_set_cases hj with ⟨rfl, rfl⟩ | ⟨-, hk⟩
    · exact GetterStep.inv htype hs hl hstep
    · exact (hthreads j k hk).mono hgrows

/-! ### Enough contexts -/

/-- Whether a thread holds a transmit context. -/
def GetterThread.holds (l : GetterThread) : ℕ := if l.slots .tlStx = .default then 0 else 1

/-- Every transmit context is in the queue or with a thread. -/
theorem contexts_conserved (htype : cfg.endpointType = .scalableTx)
    (hc : (getterSystem cfg reg).Reachable c) :
    c.shared.controller.txEndpoints.length + (c.threads.map GetterThread.holds).sum =
      cfg.contexts := by
  refine hc.conserved (fun s => s.controller.txEndpoints.length) (fun _ => cfg.contexts)
    GetterThread.holds ?_ ?_
  · rintro c ⟨⟨refuses, hrun⟩, hstart, -⟩
    obtain ⟨-, hshared⟩ := initializeController_ok hrun
    have hnone : (c.threads.map GetterThread.holds).sum = 0 := by
      refine List.sum_eq_zero fun n hn => ?_
      obtain ⟨l, hl, rfl⟩ := List.mem_map.mp hn
      rw [hstart l hl]
      rfl
    have hqueue : (cfg.initialized refuses).controller.txEndpoints = cfg.pushed := rfl
    rw [hnone, hshared, hqueue, InitSetup.pushed, htype]
    simp
  · rintro c i l s' l' hreach hget - hstep
    obtain ⟨-, hs, hthreads⟩ := getterSystem_inv hreach
    have hl := hthreads i l hget
    have hknown := hl.known
    have hstep : GetterStep reg c.shared l s' l' := hstep
    cases hstep with
    | call | poll | region | test | popFail | caught | ret | retPoll | retRegion => rfl
    | create hpc =>
      rw [hpc] at hknown
      exact absurd (hknown.1.symm.trans htype) (by decide)
    | push hpc =>
      rw [hpc] at hknown
      exact absurd (hknown.1.symm.trans htype) (by decide)
    | @pop _ dir p w rest hpc hqueue =>
      -- one context less in the queue, one more with the thread
      rw [hpc] at hknown
      obtain ⟨rfl, -, hslot⟩ := hknown
      have hqueue : c.shared.controller.txEndpoints = w :: rest := hqueue
      have hbefore : l.holds = 0 := if_pos hslot
      have hafter : (l.fill .tx p .tlStx ⟨w, some .tx⟩).holds = 1 := by
        refine if_neg fun h => ?_
        have hfilled : (⟨w, some .tx⟩ : StackFid) = .default :=
          (Function.update_self Slot.tlStx _ l.slots).symm.trans h
        cases hfilled
      show rest.length + (l.fill .tx p .tlStx ⟨w, some .tx⟩).holds + cfg.contexts = _
      rw [hbefore, hafter, hqueue, List.length_cons]
    | exit hpc =>
      rw [hl.slots.destruct_eq]
      rcases hl.slots.tlStx with hslot | ⟨-, j, -, hslot⟩
      · simp [GetterThread.holds, hslot, StackFid.destruct, StackFid.default]
      · simp [GetterThread.holds, hslot, StackFid.destruct, StackFid.default, Bringup.push,
          Bringup.setQueue, ControllerHandles.queue]

/-- There are no more threads than contexts. -/
theorem threads_le_contexts (hc : (getterSystem cfg reg).Reachable c) :
    c.threads.length ≤ cfg.contexts := by
  refine hc.invariant (I := fun c => c.threads.length ≤ cfg.contexts) ?_ ?_
  · rintro c ⟨-, -, hle⟩
    exact hle
  · rintro c _ - ih ⟨i, -, -⟩
    rwa [List.length_set]

/-- As long as a thread holds no context, not all can be taken. -/
theorem sum_holds_lt {ts : List GetterThread} {i : ℕ} (hget : ts[i]? = some l)
    (hl : l.holds = 0) : (ts.map GetterThread.holds).sum < ts.length := by
  have hsplit : (ts.map GetterThread.holds).sum + (ts.map fun l => 1 - l.holds).sum =
      ts.length := by
    rw [← List.sum_map_add]
    have hone : ∀ l : GetterThread, l.holds + (1 - l.holds) = 1 := by
      intro l
      unfold GetterThread.holds
      split <;> rfl
    simp [hone]
  have hfree := ThreadSystem.le_sum_map (fun l : GetterThread => 1 - l.holds) hget
  simp only [hl] at hfree
  omega

/-- No pop fails. -/
theorem pop_succeeds (hc : (getterSystem cfg reg).Reachable c) {i : ℕ}
    (hget : c.threads[i]? = some l) {dir : Direction} {p : Purpose} (hpc : l.pc = .pop dir p) :
    c.shared.controller.queue dir ≠ [] := by
  obtain ⟨-, -, hthreads⟩ := getterSystem_inv hc
  have hknown := (hthreads i l hget).known
  rw [hpc] at hknown
  obtain ⟨rfl, htype, hslot⟩ := hknown
  intro hqueue
  -- an empty queue means that all contexts are with threads, but this one has none
  have hempty : c.shared.controller.txEndpoints = [] := hqueue
  have hsum := contexts_conserved htype hc
  have hlt := sum_holds_lt hget (if_pos hslot)
  have hle := threads_le_contexts hc
  rw [hempty, List.length_nil] at hsum
  omega

/-- No thread sees a pop fail. -/
theorem not_popFailed (hc : (getterSystem cfg reg).Reachable c) (i : ℕ) (l : GetterThread)
    (hget : c.threads[i]? = some l) : l.pc ≠ .popFailed := by
  refine hc.forall_threads (P := fun _ _ l => l.pc ≠ .popFailed) ?_ ?_ ?_ i l hget
  · rintro c ⟨-, hstart, -⟩ i l hl
    rw [hstart l (List.mem_of_getElem? hl)]
    exact GetterPc.noConfusion
  · rintro c i l s' l' hreach hget - hstep
    have hstep : GetterStep reg c.shared l s' l' := hstep
    cases hstep with
    -- the queue has one context for each thread that may pop
    | popFail hpc hqueue => exact absurd hqueue (pop_succeeds hreach hget hpc)
    | @test _ dir p source hpc hsource =>
      show l.testSlot dir p source ≠ .popFailed
      unfold GetterThread.testSlot
      split
      · exact GetterPc.noConfusion
      · split
        · split <;> exact GetterPc.noConfusion
        · exact GetterPc.noConfusion
    | @retPoll _ dir w pc hpc hnext =>
      show pc ≠ .popFailed
      cases dir with
      | tx =>
        obtain rfl : pc = _ := hnext
        exact GetterPc.noConfusion
      | rx => rcases hnext with rfl | rfl <;> exact GetterPc.noConfusion
    | call | poll | region | create | push | pop | caught | ret | retRegion | exit =>
      exact GetterPc.noConfusion
  · intro c i j l k s' l' _ _ _ _ _ hk _
    exact hk

/-- Every thread is served at any time. -/
theorem served (hc : (getterSystem cfg reg).Reachable c) : ∀ l ∈ c.threads, Served c.shared l := by
  intro l hl
  obtain ⟨i, hget⟩ := List.getElem?_of_mem hl
  obtain ⟨htype, hs, hthreads⟩ := getterSystem_inv hc
  have hinv := hthreads i l hget
  refine ⟨fun dir w hw => hs.usable htype (hinv.provided dir w hw), fun dir q hq => ?_,
    not_popFailed hc i l hget⟩
  -- a usable endpoint has a queue for its direction, and a thread gets only one endpoint
  obtain ⟨w, hw, rfl⟩ := hinv.polled dir q hq
  obtain ⟨ep, cq, flags, -, hcq, -⟩ := hs.usable htype (hinv.provided dir w hw)
  refine ⟨hcq ▸ Option.some_ne_none cq, fun w' hw' => ?_⟩
  rw [hinv.unique dir w w' hw hw']

/-- Whatever is read from the environment, `initialize` uses no null pointer and every thread gets
usable endpoints, unless the endpoint type is `scalableTxRx`. -/
theorem endpointsUsable_iff (env : Option String) (contexts : ℕ) (dummyCq needsCqCounters : Bool) :
    EndpointsUsable ⟨libfabricEndpointType env, contexts, dummyCq, needsCqCounters⟩ ↔
      libfabricEndpointType env ≠ .scalableTxRx := by
  constructor
  · rintro ⟨hnull, -⟩ htype
    obtain ⟨s, hrun⟩ := @initializeController_scalableTxRx
      ⟨libfabricEndpointType env, contexts, dummyCq, needsCqCounters⟩ htype false
    exact hnull false s hrun
  · intro htype
    refine ⟨fun refuses s hrun => ?_, fun reg c hc => served hc⟩
    rw [initializeController_eq htype refuses] at hrun
    cases hrun

/-- With `LIBFABRIC_ENDPOINT_TYPE=scalableTxRx` a null endpoint is enabled. -/
theorem scalableTxRx_unusable :
    ¬ EndpointsUsable ⟨libfabricEndpointType (some "scalableTxRx"), 2, false, false⟩ := by
  rintro ⟨hnull, -⟩
  have htype : libfabricEndpointType (some "scalableTxRx") = .scalableTxRx := by decide +kernel
  obtain ⟨s, hrun⟩ := @initializeController_scalableTxRx
    ⟨libfabricEndpointType (some "scalableTxRx"), 2, false, false⟩ htype false
  exact hnull false s hrun

end LibFatbat
