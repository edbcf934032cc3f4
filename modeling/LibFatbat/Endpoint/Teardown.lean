import LibFatbat.Endpoint.Closing

/-!
# The teardown of a controller

Every state that a controller can be in when it is destroyed, and which of its handles
`~controller_base` closes there.

Main results:

* `Site.Inv.reachable` — every handle opened is held by the controller or by the slot of a thread.
* `Site.tornDown_iff` — the teardown is complete and ordered if and only if the controller was
  initialised and no thread has one of its transmit contexts in its slot.
-/

open Concurrent

namespace LibFatbat

/-! ### What is opened on what -/

/-- The handles that a handle may be opened on or bound to. -/
def Fid.on : Fid → List Fid
  | .fabric => []
  | .domain => [.fabric]
  | .av | .txCntr | .rxCq | .rxTxCq | .txCq | .contextCq _ | .threadCq _ => [.domain]
  | .rxEp => [.domain, .av, .rxCq, .rxTxCq, .txCntr]
  | .txEp => [.domain, .av, .txCq]
  | .scalableEp => [.domain, .av]
  | .contextEp i => [.scalableEp, .contextCq i]
  | .threadEp n => [.domain, .av, .threadCq n]

/-- The handles of the endpoints that `tx_endpoints_` holds. -/
def Fid.Pooled : Fid → Prop
  | .contextEp _ | .contextCq _ | .threadEp _ | .threadCq _ => True
  | _ => False

instance : DecidablePred Fid.Pooled := fun h => by
  cases h <;> unfold Fid.Pooled <;> infer_instance

/-- Only an endpoint of `tx_endpoints_` uses its queue. -/
theorem Fid.Pooled.of_on {d h : Fid} (hh : h.Pooled) (hon : h ∈ d.on) : d.Pooled := by
  cases d
  all_goals
    first
    | trivial
    | simp only [on, List.mem_cons, List.not_mem_nil, or_false] at hon
      rcases hon with rfl | rfl | rfl | rfl | rfl
      all_goals exact hh.elim

/-- The endpoints that `tx_endpoints_` holds. -/
def FidWrapper.Pooled (w : FidWrapper) : Prop := (∃ i, w = .context i) ∨ ∃ n, w = .threadlocal n

namespace Fabric

/-- No handle is opened twice, and a handle is used by those only that are made to. -/
structure Sound (f : Fabric) : Prop where
  nodup : f.opened.Nodup
  uses : ∀ d h, (d, h) ∈ f.uses → d ∈ f.opened ∧ h ∈ f.opened ∧ h ∈ d.on

variable {f : Fabric}

theorem Sound.openOn {h on : Fid} (hf : f.Sound) (hnew : h ∉ f.opened) (hon : on ∈ f.opened)
    (htable : on ∈ h.on) : (f.openOn h on).Sound where
  nodup := by
    show (f.opened ++ [h]).Nodup
    rw [← List.concat_eq_append]
    exact hf.nodup.concat hnew
  uses d h' hmem := by
    show d ∈ f.opened ++ [h] ∧ h' ∈ f.opened ++ [h] ∧ _
    rcases List.mem_append.mp hmem with hmem | hmem
    · obtain ⟨hd, hh', htable'⟩ := hf.uses d h' hmem
      exact ⟨List.mem_append_left _ hd, List.mem_append_left _ hh', htable'⟩
    · obtain ⟨rfl, rfl⟩ := Prod.mk.inj (List.mem_singleton.mp hmem)
      exact ⟨List.mem_append_right _ (List.mem_singleton_self _), List.mem_append_left _ hon,
        htable⟩

theorem Sound.bind {h other : Fid} (hf : f.Sound) (hopen : h ∈ f.opened)
    (hother : other ∈ f.opened) (htable : other ∈ h.on) : (f.bind h other).Sound where
  nodup := hf.nodup
  uses d h' hmem := by
    rcases List.mem_append.mp hmem with hmem | hmem
    · exact hf.uses d h' hmem
    · obtain ⟨rfl, rfl⟩ := Prod.mk.inj (List.mem_singleton.mp hmem)
      exact ⟨hopen, hother, htable⟩

@[simp]
theorem mem_openOn {h on x : Fid} : x ∈ (f.openOn h on).opened ↔ x ∈ f.opened ∨ x = h := by
  simp [openOn]

@[simp]
theorem bind_opened (h other : Fid) : (f.bind h other).opened = f.opened := rfl

/-- The loop over the transmit contexts opens an endpoint and a queue for each. -/
theorem createContexts_opened (f : Fabric) (n : ℕ) :
    ((List.range n).foldl createContext f).opened =
      f.opened ++ ((List.range n).map FidWrapper.context).flatMap FidWrapper.handles := by
  induction n with
  | zero => simp
  | succ n ih =>
    rw [List.range_succ, List.foldl_append, List.map_append, List.flatMap_append]
    show ((_ : Fabric).opened ++ [Fid.contextEp n]) ++ [Fid.contextCq n] = _
    rw [ih]
    simp [FidWrapper.handles, FidWrapper.context]

/-- A handle of the first transmit contexts. -/
theorem mem_contexts {n : ℕ} {h : Fid} :
    h ∈ ((List.range n).map FidWrapper.context).flatMap FidWrapper.handles ↔
      ∃ i < n, h = .contextEp i ∨ h = .contextCq i := by
  simp [FidWrapper.handles, FidWrapper.context, eq_comm]

/-- The loop over the transmit contexts. -/
theorem Sound.createContexts {n : ℕ} (hf : f.Sound) (hscalable : .scalableEp ∈ f.opened)
    (hdomain : .domain ∈ f.opened) (hnew : ∀ h ∈ f.opened, ¬h.Pooled) :
    ((List.range n).foldl createContext f).Sound := by
  induction n with
  | zero => exact hf
  | succ n ih =>
    rw [List.range_succ, List.foldl_append]
    -- The handles of context `n` are not among those opened so far.
    have hmem : ∀ h, h ∈ ((List.range n).foldl createContext f).opened ↔
        h ∈ f.opened ∨ ∃ i < n, h = .contextEp i ∨ h = .contextCq i := by
      intro h
      rw [createContexts_opened, List.mem_append, mem_contexts]
    have hep : Fid.contextEp n ∉ f.opened := fun h => hnew _ h trivial
    have hcq : Fid.contextCq n ∉ f.opened := fun h => hnew _ h trivial
    refine Sound.bind (Sound.openOn (Sound.openOn ih ?_ ?_ ?_) ?_ ?_ ?_) ?_ ?_ ?_
    all_goals simp [hmem, hep, hcq, hscalable, hdomain, Fid.on]

theorem createThreadlocal_opened (f : Fabric) (n : ℕ) :
    (f.createThreadlocal n).opened = f.opened ++ [.threadCq n, .threadEp n] := by
  simp [createThreadlocal, openOn]

/-- A call makes a thread-local endpoint. -/
theorem Sound.createThreadlocal {n : ℕ} (hf : f.Sound) (hdomain : .domain ∈ f.opened)
    (hav : .av ∈ f.opened) (hcq : .threadCq n ∉ f.opened) (hep : .threadEp n ∉ f.opened) :
    (f.createThreadlocal n).Sound := by
  have hqueue : (f.openOn (.threadCq n) .domain).Sound :=
    hf.openOn hcq hdomain (by simp [Fid.on])
  have hendpoint : ((f.openOn (.threadCq n) .domain).openOn (.threadEp n) .domain).Sound :=
    hqueue.openOn (by simp [hep]) (by simp [hdomain]) (by simp [Fid.on])
  refine (hendpoint.bind ?_ ?_ ?_).bind ?_ ?_ ?_
  all_goals simp [hav, Fid.on]

end Fabric

/-! ### What an initialised controller holds -/

/-- What the destructor closes after the two queues. -/
def InitSetup.shared (cfg : InitSetup) : List Fid :=
  cfg.epTx.handles ++ cfg.epRx.handles ++ cfg.txCntr.toList ++ [.av, .domain, .fabric]

/-- The members of a controller that `initialize` sets and no other call changes. -/
structure ControllerHandles.Holds (c : ControllerHandles) (cfg : InitSetup) : Prop where
  eps : c.eps = some (cfg.epTx, cfg.epRx)
  rxEndpoints : c.rxEndpoints = []
  txCntr : c.txCntr = cfg.txCntr
  av : c.av = some .av
  domain : c.domain = some .domain
  fabric : c.fabric = some .fabric

/-- The order in which the handles of an initialised controller are closed. -/
theorem ControllerHandles.Holds.closingOrder {c : ControllerHandles} {cfg : InitSetup}
    (hc : c.Holds cfg) :
    c.closingOrder = c.txEndpoints.flatMap FidWrapper.handles ++ cfg.shared := by
  simp [ControllerHandles.closingOrder, InitSetup.shared, hc.eps, hc.rxEndpoints, hc.txCntr, hc.av,
    hc.domain, hc.fabric]

/-- The handles that `initialize` opens before the loop over the transmit contexts. -/
def InitSetup.openFixed (cfg : InitSetup) (f : Fabric) : Fabric :=
  let f := f.openFabric.createRxEndpoint
  let f := if cfg.bindsTxQueue then f.bindTxQueueToRxEndpoint else f
  let f := if cfg.opensCounter then f.bindCqCounterToEndpoint else f
  match cfg.endpointType with
  | .single | .threadlocalTx => f
  | .multiple => f.createTxEndpoint
  | .scalableTx | .scalableTxRx => f.createScalableEndpoint

/-- How many transmit contexts are opened. -/
def InitSetup.opensContexts (cfg : InitSetup) : ℕ :=
  match cfg.endpointType with
  | .single | .threadlocalTx | .multiple => 0
  | .scalableTx | .scalableTxRx => cfg.contexts

namespace InitSetup

variable (cfg : InitSetup) (refuses : Bool)

/-- The loop over the transmit contexts comes last. -/
theorem initialise_fabric (c : ControllerHandles) (f : Fabric) :
    (c.initialise cfg f).2 =
      (List.range cfg.opensContexts).foldl Fabric.createContext (cfg.openFixed f) := by
  obtain ⟨type, contexts, dummyCq, needs⟩ := cfg
  cases type <;> rfl

/-- The endpoints pushed to `tx_endpoints_` are those of the loop. -/
theorem pushed_eq : cfg.pushed = (List.range cfg.opensContexts).map .context := by
  obtain ⟨type, contexts, dummyCq, needs⟩ := cfg
  cases type <;> rfl

/-- The members of the controller hold what is opened before the loop. -/
theorem openFixed_perm : (cfg.openFixed (.start refuses)).opened.Perm cfg.shared := by
  have h : ∀ type dummyCq needs refuses,
      ((⟨type, 0, dummyCq, needs⟩ : InitSetup).openFixed (.start refuses)).opened.Perm
        (⟨type, 0, dummyCq, needs⟩ : InitSetup).shared := by
    intro type
    cases type <;> decide
  exact h cfg.endpointType cfg.dummyCq cfg.needsCqCounters refuses

/-- What is opened before the loop is not for `tx_endpoints_`. -/
theorem not_pooled_of_mem_shared : ∀ h ∈ cfg.shared, ¬h.Pooled := by
  have h : ∀ type dummyCq needs, ∀ h ∈ (⟨type, 0, dummyCq, needs⟩ : InitSetup).shared,
      ¬h.Pooled := by
    intro type
    cases type <;> decide
  exact h cfg.endpointType cfg.dummyCq cfg.needsCqCounters

theorem openFixed_sound : (cfg.openFixed (.start refuses)).Sound := by
  have h : ∀ type dummyCq needs refuses,
      let f := (⟨type, 0, dummyCq, needs⟩ : InitSetup).openFixed (.start refuses)
      f.opened.Nodup ∧ ∀ u ∈ f.uses, u.1 ∈ f.opened ∧ u.2 ∈ f.opened ∧ u.2 ∈ u.1.on := by
    intro type
    cases type <;> decide
  obtain ⟨hnodup, huses⟩ := h cfg.endpointType cfg.dummyCq cfg.needsCqCounters refuses
  exact ⟨hnodup, fun d h hmem => huses (d, h) hmem⟩

/-- Among the handles closed after the two queues, none follows a handle that it uses. -/
theorem shared_pairwise : cfg.shared.Pairwise fun h d => h ∉ d.on := by
  have h : ∀ type dummyCq needs,
      (⟨type, 0, dummyCq, needs⟩ : InitSetup).shared.Pairwise fun h d => h ∉ d.on := by
    intro type
    cases type <;> decide
  exact h cfg.endpointType cfg.dummyCq cfg.needsCqCounters

/-- The scalable endpoint is there when contexts are opened on it. -/
theorem scalableEp_mem (hcontexts : cfg.opensContexts ≠ 0) :
    Fid.scalableEp ∈ (cfg.openFixed (.start refuses)).opened := by
  rw [(cfg.openFixed_perm refuses).mem_iff]
  obtain ⟨type, contexts, dummyCq, needs⟩ := cfg
  cases type with
  | single | multiple | threadlocalTx => exact absurd rfl hcontexts
  | scalableTx | scalableTxRx => simp [shared, epTx, FidWrapper.handles]

theorem initialise_sound (c : ControllerHandles) : (c.initialise cfg (.start refuses)).2.Sound := by
  rw [initialise_fabric]
  by_cases hcontexts : cfg.opensContexts = 0
  · rw [hcontexts]
    exact cfg.openFixed_sound refuses
  · have hdomain : Fid.domain ∈ (cfg.openFixed (.start refuses)).opened := by
      rw [(cfg.openFixed_perm refuses).mem_iff]
      simp [shared]
    refine (cfg.openFixed_sound refuses).createContexts (cfg.scalableEp_mem refuses hcontexts)
      hdomain fun h hmem => ?_
    exact cfg.not_pooled_of_mem_shared h ((cfg.openFixed_perm refuses).mem_iff.mp hmem)

/-- What `initialize` opens is what the members of the controller then hold. -/
theorem initialise_opened (c : ControllerHandles) :
    (c.initialise cfg (.start refuses)).2.opened.Perm
      (cfg.pushed.flatMap FidWrapper.handles ++ cfg.shared) := by
  rw [initialise_fabric, Fabric.createContexts_opened, ← pushed_eq]
  exact (List.perm_append_comm).trans ((cfg.openFixed_perm refuses).append_left _)

/-- `initialize` closes nothing. -/
theorem initialise_closed (c : ControllerHandles) :
    (c.initialise cfg (.start refuses)).2.closed = [] := by
  have hfixed : (cfg.openFixed (.start refuses)).closed = [] := by
    have h : ∀ type dummyCq needs refuses,
        ((⟨type, 0, dummyCq, needs⟩ : InitSetup).openFixed (.start refuses)).closed = [] := by
      intro type
      cases type <;> decide
    exact h cfg.endpointType cfg.dummyCq cfg.needsCqCounters refuses
  rw [initialise_fabric]
  induction cfg.opensContexts with
  | zero => exact hfixed
  | succ n ih =>
    rw [List.range_succ, List.foldl_append]
    exact ih

end InitSetup

/-! ### Every handle has one holder -/

/-- The handles in a slot that go back to the queue when the thread exits. -/
def SlotContent.held : SlotContent → List Fid
  | .own w => w.handles
  | .empty | .other => []

/-- What holds of every reachable state. -/
structure Site.Inv (s : Site) : Prop where
  sound : s.fabric.Sound
  notClosed : s.fabric.closed = []
  fresh : ∀ n, s.nextThreadEp ≤ n → .threadCq n ∉ s.fabric.opened ∧ .threadEp n ∉ s.fabric.opened
  queue : ∀ w ∈ s.controller.txEndpoints, w.Pooled
  slots : ∀ t ∈ s.threads, ∀ w, t.tlStx = .own w → w.Pooled
  phase : s.initialised = false ∧ s.controller = .constructed ∧
      (∃ refuses, s.fabric = .start refuses) ∨
    s.initialised = true ∧ ∃ cfg, s.controller.Holds cfg
  /-- The controller or a slot holds what was opened. -/
  counted : ∀ h, s.controller.closingOrder.count h +
    (s.threads.map fun t => t.tlStx.held.count h).sum = s.fabric.opened.count h

namespace Site

variable {s s' : Site}

/-- A controller with another queue closes the rest as before. -/
theorem closingOrder_count (c : ControllerHandles) (q : List FidWrapper) (h : Fid) :
    ({ c with txEndpoints := q } : ControllerHandles).closingOrder.count h +
        (c.txEndpoints.flatMap FidWrapper.handles).count h =
      c.closingOrder.count h + (q.flatMap FidWrapper.handles).count h := by
  simp only [ControllerHandles.closingOrder, List.count_append]
  omega

/-- An endpoint of the queue has handles. -/
theorem pooled_ep {w : FidWrapper} (hw : w.Pooled) : ∃ h, h ∈ w.handles := by
  obtain ⟨i, rfl⟩ | ⟨n, rfl⟩ := hw
  · exact ⟨.contextEp i, by simp [FidWrapper.handles, FidWrapper.context]⟩
  · exact ⟨.threadEp n, by simp [FidWrapper.handles, FidWrapper.threadlocal]⟩

/-- What a slot holds was opened. -/
theorem Inv.opened_of_held (hs : s.Inv) {t : TeardownThread} {h : Fid} (ht : t ∈ s.threads)
    (hheld : h ∈ t.tlStx.held) : h ∈ s.fabric.opened := by
  obtain ⟨i, hget⟩ := List.mem_iff_getElem?.mp ht
  have hle : t.tlStx.held.count h ≤ (s.threads.map fun t => t.tlStx.held.count h).sum :=
    ThreadSystem.le_sum_map (fun t : TeardownThread => t.tlStx.held.count h) hget
  have hpos := List.count_pos_iff.mpr hheld
  have hcounted := hs.counted h
  exact List.count_pos_iff.mp (by omega)

/-- An initialised controller holds what its own initialisation made. -/
theorem Inv.holds (hs : s.Inv) (hinit : s.initialised = true) : ∃ cfg, s.controller.Holds cfg := by
  obtain ⟨hfresh, -⟩ | ⟨-, hholds⟩ := hs.phase
  · rw [hinit] at hfresh
    exact absurd hfresh.symm Bool.false_ne_true
  · exact hholds

/-- A controller that is not initialised is as it was constructed, and nothing was opened. -/
theorem Inv.of_fresh (hs : s.Inv) (hfresh : s.initialised = false) :
    s.controller = .constructed ∧ ∃ refuses, s.fabric = .start refuses := by
  obtain ⟨-, hstart⟩ | ⟨hinit, -⟩ := hs.phase
  · exact hstart
  · rw [hfresh] at hinit
    exact absurd hinit Bool.false_ne_true

/-- Nothing is held before the controller is initialised. -/
theorem Inv.held_of_fresh (hs : s.Inv) (hfresh : s.initialised = false) {t : TeardownThread}
    (ht : t ∈ s.threads) : t.tlStx.held = [] := by
  obtain ⟨-, refuses, hstart⟩ := hs.of_fresh hfresh
  refine List.eq_nil_iff_forall_not_mem.mpr fun h hheld => ?_
  have hopened := hs.opened_of_held ht hheld
  rw [hstart] at hopened
  exact List.not_mem_nil hopened

/-- Endpoints move between the queue and a slot. -/
theorem Inv.moved (hs : s.Inv) {i : ℕ} {t t' : TeardownThread} {q : List FidWrapper}
    (hget : s.threads[i]? = some t) (hqueue : ∀ w ∈ q, w.Pooled)
    (hslot : ∀ w, t'.tlStx = .own w → w.Pooled)
    (hkept : ∀ h, (q.flatMap FidWrapper.handles).count h + t'.tlStx.held.count h =
      (s.controller.txEndpoints.flatMap FidWrapper.handles).count h + t.tlStx.held.count h)
    (hfresh : s.initialised = false → q = s.controller.txEndpoints) :
    Inv { s with controller := { s.controller with txEndpoints := q }
                 threads := s.threads.set i t' } where
  sound := hs.sound
  notClosed := hs.notClosed
  fresh := hs.fresh
  queue := hqueue
  slots k hk w hw := by
    rcases List.mem_or_eq_of_mem_set hk with hk | rfl
    · exact hs.slots k hk w hw
    · exact hslot w hw
  phase := by
    obtain ⟨hinit, hcontroller, hstart⟩ | ⟨hinit, cfg, hholds⟩ := hs.phase
    · left
      refine ⟨hinit, ?_, hstart⟩
      rw [hfresh hinit]
      exact hcontroller
    · right
      exact ⟨hinit, cfg, hholds.1, hholds.2, hholds.3, hholds.4, hholds.5, hholds.6⟩
  counted h := by
    -- only one thread's slot changes in the sum, by what the queue gives or takes
    have hsum : ((s.threads.set i t').map fun t => t.tlStx.held.count h).sum +
        t.tlStx.held.count h = (s.threads.map fun t => t.tlStx.held.count h).sum +
          t'.tlStx.held.count h :=
      ThreadSystem.sum_map_set (fun t : TeardownThread => t.tlStx.held.count h) hget
    have horder := closingOrder_count s.controller q h
    have hbefore := hs.counted h
    have hsame := hkept h
    simp only
    omega

/-- A controller just constructed has opened nothing. -/
theorem Inv.start (h : s.Start) : s.Inv := by
  obtain ⟨refuses, hs, hthreads⟩ := h
  rw [hs]
  constructor
  case sound => exact ⟨List.nodup_nil, fun d h hmem => absurd hmem List.not_mem_nil⟩
  case notClosed => rfl
  case fresh => exact fun n _ => ⟨List.not_mem_nil, List.not_mem_nil⟩
  case queue => exact fun w hw => absurd hw List.not_mem_nil
  case slots =>
    intro t ht w hw
    rw [hthreads t ht] at hw
    exact absurd hw (by simp)
  case phase => exact .inl ⟨rfl, rfl, refuses, rfl⟩
  case counted =>
    intro h
    have hzero : (s.threads.map fun t => t.tlStx.held.count h).sum = 0 := by
      refine List.sum_eq_zero fun n hn => ?_
      obtain ⟨t, ht, rfl⟩ := List.mem_map.mp hn
      simp [hthreads t ht, SlotContent.held]
    simpa [ControllerHandles.closingOrder, ControllerHandles.constructed, Fabric.start] using hzero

/-- The endpoints that `initialize` pushes. -/
theorem pushed_pooled {cfg : InitSetup} : ∀ w ∈ cfg.pushed, w.Pooled := by
  intro w hw
  rw [cfg.pushed_eq] at hw
  obtain ⟨i, -, rfl⟩ := List.mem_map.mp hw
  exact .inl ⟨i, rfl⟩

/-- After `initialize`, the controller holds everything. -/
theorem Inv.initialise (hs : s.Inv) (cfg : InitSetup) (hfresh : s.initialised = false) :
    Inv { s with initialised := true
                 controller := (s.controller.initialise cfg s.fabric).1
                 fabric := (s.controller.initialise cfg s.fabric).2 } := by
  obtain ⟨hcontroller, refuses, hstart⟩ := hs.of_fresh hfresh
  have hholds : (s.controller.initialise cfg s.fabric).1.Holds cfg := by
    rw [hcontroller]
    exact ⟨rfl, rfl, rfl, rfl, rfl, rfl⟩
  have hqueue : (s.controller.initialise cfg s.fabric).1.txEndpoints = cfg.pushed := by
    rw [hcontroller]
    exact List.nil_append _
  have hopened : (s.controller.initialise cfg s.fabric).2.opened.Perm
      (s.controller.initialise cfg s.fabric).1.closingOrder := by
    rw [hholds.closingOrder, hqueue, hstart]
    exact cfg.initialise_opened refuses s.controller
  constructor
  case sound => simpa [hstart] using cfg.initialise_sound refuses s.controller
  case notClosed => simpa [hstart] using cfg.initialise_closed refuses s.controller
  case fresh =>
    intro n _
    -- What `initialize` opens is pooled under the index of a context, or shared.
    have hno : ∀ h : Fid, h.Pooled → (∀ i, h ≠ .contextEp i ∧ h ≠ .contextCq i) →
        h ∉ (s.controller.initialise cfg s.fabric).2.opened := by
      intro h hpooled hkind hmem
      rw [hopened.mem_iff, hholds.closingOrder, hqueue, List.mem_append, cfg.pushed_eq,
        Fabric.mem_contexts] at hmem
      rcases hmem with ⟨i, -, rfl | rfl⟩ | hshared
      · exact (hkind i).1 rfl
      · exact (hkind i).2 rfl
      · exact cfg.not_pooled_of_mem_shared h hshared hpooled
    exact ⟨hno _ trivial (by simp), hno _ trivial (by simp)⟩
  case queue =>
    show ∀ w ∈ (s.controller.initialise cfg s.fabric).1.txEndpoints, w.Pooled
    rw [hqueue]
    exact pushed_pooled
  case slots => exact hs.slots
  case phase => exact .inr ⟨rfl, cfg, hholds⟩
  case counted =>
    intro h
    have hbefore := hs.counted h
    rw [hstart] at hbefore
    have hnone : (Fabric.start refuses).opened.count h = 0 := rfl
    have hall := hopened.count_eq h
    simp only
    omega

/-- What an initialised controller needs in order to make endpoints is open. -/
theorem Inv.shared_opened (hs : s.Inv) {cfg : InitSetup} (hholds : s.controller.Holds cfg) :
    ∀ h ∈ cfg.shared, h ∈ s.fabric.opened := by
  intro h hmem
  have hclosing : h ∈ s.controller.closingOrder := by
    rw [hholds.closingOrder]
    exact List.mem_append_right _ hmem
  have hpos := List.count_pos_iff.mpr hclosing
  have hcounted := hs.counted h
  exact List.count_pos_iff.mp (by omega)

/-- A call of `get_tx_endpoint` that makes an endpoint. -/
theorem Inv.createThreadlocal (hs : s.Inv) {i : ℕ} {t : TeardownThread}
    (hget : s.threads[i]? = some t) (hinit : s.initialised = true) :
    (s.createThreadlocal i t).Inv := by
  obtain ⟨cfg, hholds⟩ := hs.holds hinit
  have hshared := hs.shared_opened hholds
  obtain ⟨hcq, hep⟩ := hs.fresh s.nextThreadEp le_rfl
  have hopened := s.fabric.createThreadlocal_opened s.nextThreadEp
  constructor
  case sound =>
    exact hs.sound.createThreadlocal (hshared _ (by simp [InitSetup.shared]))
      (hshared _ (by simp [InitSetup.shared])) hcq hep
  case notClosed => exact hs.notClosed
  case fresh =>
    intro n (hn : s.nextThreadEp + 1 ≤ n)
    obtain ⟨hcq, hep⟩ := hs.fresh n (by omega)
    have hne : n ≠ s.nextThreadEp := by omega
    simp [Site.createThreadlocal, hopened, hcq, hep, hne]
  case queue =>
    intro w hw
    rcases List.mem_append.mp hw with hw | hw
    · exact hs.queue w hw
    · rw [List.mem_singleton.mp hw]
      exact .inr ⟨_, rfl⟩
  case slots =>
    intro k hk w hw
    rcases List.mem_or_eq_of_mem_set hk with hk | rfl
    · exact hs.slots k hk w hw
    · exact hs.slots t (List.mem_of_getElem? hget) w hw
  case phase =>
    exact .inr ⟨hinit, cfg, hholds.1, hholds.2, hholds.3, hholds.4, hholds.5, hholds.6⟩
  case counted =>
    intro h
    -- The slot filled is `tl_tx_`; the queue holds the handles of the endpoint.
    have hsum : ((s.threads.set i { t with tlTx := .own (.threadlocal s.nextThreadEp) }).map
        fun t => t.tlStx.held.count h).sum + t.tlStx.held.count h =
          (s.threads.map fun t => t.tlStx.held.count h).sum + t.tlStx.held.count h :=
      ThreadSystem.sum_map_set (fun t : TeardownThread => t.tlStx.held.count h) hget
    have horder := closingOrder_count s.controller
      (s.controller.txEndpoints ++ [.threadlocal s.nextThreadEp]) h
    have hhandles : (FidWrapper.threadlocal s.nextThreadEp).handles.count h =
        [Fid.threadCq s.nextThreadEp, .threadEp s.nextThreadEp].count h :=
      List.Perm.count_eq (.swap _ _ _) h
    have hbefore := hs.counted h
    rw [List.flatMap_append, List.flatMap_singleton, List.count_append] at horder
    simp only [Site.createThreadlocal, hopened, List.count_append]
    omega

/-- The invariant survives every step. -/
theorem Inv.step (hs : s.Inv) (h : SiteStep s s') : s'.Inv := by
  cases h with
  | initialise cfg hfresh htype => exact hs.initialise cfg hfresh
  | create hget halive hinit htype hslot => exact hs.createThreadlocal hget hinit
  | @pop i t w rest hget halive hinit htype hslot hqueue =>
    have hpooled : ∀ v ∈ w :: rest, v.Pooled := by
      intro v hv
      rw [← hqueue] at hv
      exact hs.queue v hv
    refine hs.moved hget (fun v hv => hpooled v (List.mem_cons_of_mem _ hv)) ?_ ?_ ?_
    · rintro v ⟨⟩
      exact hpooled w List.mem_cons_self
    · -- The slot was empty, so what it holds now is what the queue lost.
      intro h
      rw [hqueue, hslot, List.flatMap_cons, List.count_append]
      show _ + w.handles.count h = _ + ([] : List Fid).count h
      rw [List.count_nil]
      omega
    · intro hfresh
      rw [hinit] at hfresh
      exact absurd hfresh.symm Bool.false_ne_true
  | @elsewhere i t t' hget htx hstx halive =>
    refine hs.moved hget hs.queue ?_ ?_ fun _ => rfl
    · intro w hw
      rcases hstx with hsame | ⟨-, hother⟩
      · exact hs.slots t (List.mem_of_getElem? hget) w (hsame ▸ hw)
      · rw [hother] at hw
        exact absurd hw (by simp)
    · intro h
      rcases hstx with hsame | ⟨hempty, hother⟩
      · rw [hsame]
      · rw [hempty, hother]
        rfl
  | @exit i t hget halive =>
    refine hs.moved hget ?_ (fun w hw => absurd hw (by simp)) ?_ ?_
    · intro w hw
      rcases List.mem_append.mp hw with hw | hw
      · exact hs.queue w hw
      · cases hslot : t.tlStx with
        | own v =>
          simp only [hslot, List.mem_singleton] at hw
          exact hs.slots t (List.mem_of_getElem? hget) w (hw ▸ hslot)
        | empty | other => simp [hslot] at hw
    · intro h
      rw [List.flatMap_append, List.count_append]
      cases t.tlStx with
      | own v => simp [SlotContent.held]
      | empty | other => simp [SlotContent.held]
    · intro hfresh
      -- Before the controller is initialised the slot holds none of its endpoints.
      have hheld := hs.held_of_fresh hfresh (List.mem_of_getElem? hget)
      cases hslot : t.tlStx with
      | own v =>
        obtain ⟨h, hmem⟩ := pooled_ep (hs.slots t (List.mem_of_getElem? hget) v hslot)
        rw [hslot] at hheld
        exact absurd hmem (List.eq_nil_iff_forall_not_mem.mp hheld h)
      | empty | other => simp

/-- Every handle opened is held by the controller or by the slot of a thread. -/
theorem Inv.reachable (hs : s.Reachable) : s.Inv := by
  induction hs with
  | start h => exact Inv.start h
  | step _ h ih => exact ih.step h

/-! ### Complete and ordered teardown -/

/-- The destructor returns; it closes every handle opened exactly once and no other, each after all
handles that were opened on it or bound to it. -/
def TornDown (s : Site) : Prop :=
  ∃ f, s.controller.destructor s.fabric = .ok () f ∧
    (∀ h ∈ s.fabric.opened, f.closed.count h = 1) ∧ (∀ h ∈ f.closed, h ∈ s.fabric.opened) ∧
      ClosedInOrder s.fabric.uses f.closed

/-- Different endpoints of the queue do not use each other's handles. -/
theorem pooled_apart {v w : FidWrapper} (hv : v.Pooled) (hw : w.Pooled)
    (hdisjoint : v.handles.Disjoint w.handles) : ∀ h ∈ v.handles, ∀ d ∈ w.handles, h ∉ d.on := by
  obtain ⟨i, rfl⟩ | ⟨n, rfl⟩ := hv <;> obtain ⟨j, rfl⟩ | ⟨m, rfl⟩ := hw
  all_goals
    simp only [FidWrapper.handles, FidWrapper.context, FidWrapper.threadlocal, List.Disjoint,
      Option.toList_some, Option.toList_none, List.append_nil, List.cons_append, List.nil_append,
      List.mem_cons, List.not_mem_nil, or_false] at hdisjoint ⊢
    rintro h (rfl | rfl) d (rfl | rfl) hon
    all_goals simp [Fid.on] at hon hdisjoint
  all_goals omega

/-- The handles of an endpoint of the queue: the endpoint comes first. -/
theorem pooled_pairwise {w : FidWrapper} (hw : w.Pooled) :
    w.handles.Pairwise fun h d => h ∉ d.on := by
  obtain ⟨i, rfl⟩ | ⟨n, rfl⟩ := hw
  · simp [FidWrapper.handles, FidWrapper.context, Fid.on]
  · simp [FidWrapper.handles, FidWrapper.threadlocal, Fid.on]

theorem pooled_of_mem_handles {w : FidWrapper} (hw : w.Pooled) : ∀ h ∈ w.handles, h.Pooled := by
  intro h hmem
  obtain ⟨i, rfl⟩ | ⟨n, rfl⟩ := hw
  all_goals
    simp only [FidWrapper.handles, FidWrapper.context, FidWrapper.threadlocal, Option.toList_some,
      Option.toList_none, List.append_nil, List.cons_append, List.nil_append, List.mem_cons,
      List.not_mem_nil, or_false] at hmem
    rcases hmem with rfl | rfl
    all_goals trivial

/-- No handle on the destructor's list follows one that it uses. -/
theorem Inv.closingOrder_pairwise (hs : s.Inv) {cfg : InitSetup} (hholds : s.controller.Holds cfg)
    (hnodup : s.controller.closingOrder.Nodup) :
    s.controller.closingOrder.Pairwise fun h d => h ∉ d.on := by
  rw [hholds.closingOrder] at hnodup ⊢
  have hqueue := (List.nodup_flatMap.mp (List.nodup_append.mp hnodup).1).2
  refine List.pairwise_append.mpr ⟨?_, cfg.shared_pairwise, ?_⟩
  · refine List.pairwise_flatMap.mpr ⟨fun w hw => pooled_pairwise (hs.queue w hw), ?_⟩
    refine hqueue.imp_of_mem fun {v w} hv hw hdisjoint => ?_
    exact pooled_apart (hs.queue v hv) (hs.queue w hw) hdisjoint
  · intro h hh d hd hon
    obtain ⟨w, hw, hmem⟩ := List.mem_flatMap.mp hh
    have hpooled := pooled_of_mem_handles (hs.queue w hw) h hmem
    exact cfg.not_pooled_of_mem_shared d hd (hpooled.of_on hon)

/-- A list in which no handle follows one that it uses is in order. -/
theorem closedInOrder_of_pairwise {uses : List (Fid × Fid)} {closed : List Fid}
    (hpairwise : closed.Pairwise fun h d => h ∉ d.on) (hnodup : closed.Nodup)
    (huses : ∀ d h, (d, h) ∈ uses → d ∈ closed ∧ h ∈ d.on) : ClosedInOrder uses closed := by
  rintro d h hmem pre post rfl
  obtain ⟨hd, hon⟩ := huses d h hmem
  rcases List.mem_append.mp hd with hpre | hd
  · exact hpre
  · rcases List.mem_cons.mp hd with rfl | hpost
    · exact absurd hon (by cases d <;> simp [Fid.on])
    · have hlater := (List.pairwise_append.mp hpairwise).2.1
      exact absurd hon ((List.pairwise_cons.mp hlater).1 d hpost)

/-- When nobody else holds a handle, the destructor's list is what was opened. -/
theorem Inv.closingOrder_perm (hs : s.Inv) (hslots : ∀ t ∈ s.threads, ∀ w, t.tlStx ≠ .own w) :
    s.controller.closingOrder.Perm s.fabric.opened := by
  refine List.perm_iff_count.mpr fun h => ?_
  have hcounted := hs.counted h
  have hzero : (s.threads.map fun t => t.tlStx.held.count h).sum = 0 := by
    refine List.sum_eq_zero fun n hn => ?_
    obtain ⟨t, ht, rfl⟩ := List.mem_map.mp hn
    cases hslot : t.tlStx with
    | own w => exact absurd hslot (hslots t ht w)
    | empty | other => rfl
  omega

/-- What a slot holds is not on the destructor's list. -/
theorem Inv.not_mem_closingOrder (hs : s.Inv) {h : Fid}
    (hother : 0 < (s.threads.map fun t => t.tlStx.held.count h).sum) :
    h ∈ s.fabric.opened ∧ h ∉ s.controller.closingOrder := by
  have hcounted := hs.counted h
  have hle := List.nodup_iff_count_le_one.mp hs.sound.nodup h
  refine ⟨List.count_pos_iff.mp (by omega), fun hmem => ?_⟩
  have hpos := List.count_pos_iff.mpr hmem
  omega

/-- The teardown is complete and ordered if and only if the controller was initialised and no thread
has one of its transmit contexts in its slot. -/
theorem tornDown_iff (hs : s.Reachable) :
    s.TornDown ↔ s.initialised = true ∧ ∀ t ∈ s.threads, ∀ w, t.tlStx ≠ .own w := by
  have hinv := Inv.reachable hs
  constructor
  · rintro ⟨f, hreturn, hclosed, -, -⟩
    obtain ⟨heps, hheld⟩ := destructor_ok hreturn
    rw [hinv.notClosed] at hheld
    refine ⟨?_, fun t ht w hown => ?_⟩
    · obtain ⟨-, hcontroller, -⟩ | ⟨hinit, -⟩ := hinv.phase
      · rw [hcontroller] at heps
        exact absurd rfl heps
      · exact hinit
    · -- Whatever was opened is on the destructor's list, so the slot does not hold it.
      obtain ⟨h, hmem⟩ := pooled_ep (hinv.slots t ht w hown)
      obtain ⟨i, hget⟩ := List.mem_iff_getElem?.mp ht
      have hle : t.tlStx.held.count h ≤ (s.threads.map fun t => t.tlStx.held.count h).sum :=
        ThreadSystem.le_sum_map (fun t : TeardownThread => t.tlStx.held.count h) hget
      have hpos : 0 < t.tlStx.held.count h := by
        rw [hown]
        exact List.count_pos_iff.mpr hmem
      obtain ⟨hopened, hmissing⟩ := hinv.not_mem_closingOrder (hpos.trans_le hle)
      have hmem' : h ∈ f.closed := List.count_pos_iff.mp (by rw [hclosed h hopened]; omega)
      exact (hheld h hmem').elim List.not_mem_nil hmissing
  · rintro ⟨hinit, hslots⟩
    obtain ⟨cfg, hholds⟩ := hinv.holds hinit
    have hperm := hinv.closingOrder_perm hslots
    have hnodup := hperm.nodup_iff.mpr hinv.sound.nodup
    have hordered : ClosedInOrder s.fabric.uses s.controller.closingOrder := by
      refine closedInOrder_of_pairwise (hinv.closingOrder_pairwise hholds hnodup) hnodup ?_
      intro d h hmem
      obtain ⟨hd, -, hon⟩ := hinv.sound.uses d h hmem
      exact ⟨hperm.mem_iff.mpr hd, hon⟩
    have hclosed : (s.fabric.close s.controller.closingOrder).closed =
        s.controller.closingOrder := by
      show s.fabric.closed ++ _ = _
      rw [hinv.notClosed, List.nil_append]
    -- the destructor returns, closes all that was opened, nothing else, and in order
    refine ⟨s.fabric.close s.controller.closingOrder, ?_, ?_, ?_, ?_⟩
    · refine destructor_of_ordered hholds.eps hholds.av hholds.domain hholds.fabric ?_
      rw [hinv.notClosed, List.nil_append]
      exact hordered
    · intro h hmem
      rw [hclosed]
      exact List.count_eq_one_of_mem hnodup (hperm.mem_iff.mpr hmem)
    · intro h hmem
      rw [hclosed] at hmem
      exact hperm.mem_iff.mp hmem
    · rw [hclosed]
      exact hordered

/-- A controller of type `single`, initialised and used by one thread. -/
theorem tornDown_single :
    TornDown ⟨true,
      (ControllerHandles.constructed.initialise ⟨.single, 1, true, true⟩ (.start true)).1,
      (ControllerHandles.constructed.initialise ⟨.single, 1, true, true⟩ (.start true)).2,
        [⟨true, .empty, .empty⟩], 0⟩ := by
  refine (tornDown_iff (.step (.start ⟨true, rfl, by simp⟩)
    (.initialise (s := ⟨false, .constructed, .start true, [⟨true, .empty, .empty⟩], 0⟩)
      ⟨.single, 1, true, true⟩ rfl (by simp)))).mpr ?_
  simp

/-- A controller that was never initialised has no endpoints to clean up, and the destructor
dereferences a null pointer. -/
theorem not_tornDown_constructed :
    ¬∀ s : Site, s.Reachable → s.TornDown := by
  intro hall
  obtain ⟨f, hreturn, -⟩ := hall ⟨false, .constructed, .start true, [⟨true, .empty, .empty⟩], 0⟩
    (.start ⟨true, rfl, by simp⟩)
  have hnull : ControllerHandles.constructed.destructor (.start true) =
      .error .nullPointer (.start true) := rfl
  exact absurd (hnull.symm.trans hreturn) (by simp)

end Site

end LibFatbat
