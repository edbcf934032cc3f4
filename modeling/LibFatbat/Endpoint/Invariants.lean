import LibFatbat.Endpoint.Model

/-!
# What holds of controllers and threads

The invariants of `endpointSystem`. An endpoint in a queue or in a slot of a thread was made by its
controller (`Controller.Inv`, `StackEndpoint.Sound`), and a controller that a call is in progress on
is not destroyed (`ThreadState.Inv`). Each step keeps what holds of its own thread
(`ThreadState.Inv.step`) and of the others (`ThreadState.Inv.keeps`).
-/

namespace LibFatbat

/-! ### What one thread holds -/

/-- How often a `stack_endpoint` stands for endpoint `e` of controller `k`: when its destructor
would push it. -/
def StackEndpoint.owns (k e : ℕ) (x : StackEndpoint) : ℕ :=
  if x.pool = some ⟨k, .tx⟩ ∧ x.endpoint.ep = some e then 1 else 0

/-- How often the call in progress has endpoint `e` of controller `k` in its hands. -/
def EndpointPc.owns (k e : ℕ) : EndpointPc → ℕ
  | .push k' _ _ w => if k' = k ∧ w.ep = some e then 1 else 0
  | .assign _ _ _ temp | .destroyTemp _ _ _ temp => temp.owns k e
  | _ => 0

/-- How often the slots hold endpoint `e` of controller `k`. -/
def slotsOwn (k e : ℕ) (slots : Slot → StackEndpoint) : ℕ :=
  (slots .tlTx).owns k e + (slots .tlStx).owns k e + (slots .tlSrx).owns k e

/-- How often a thread holds endpoint `e` of controller `k`. -/
def ThreadState.owns (k e : ℕ) (l : ThreadState) : ℕ := l.pc.owns k e + slotsOwn k e l.slots

@[simp]
theorem StackEndpoint.owns_of_pool_eq_none {k e : ℕ} {x : StackEndpoint} (h : x.pool = none) :
    x.owns k e = 0 := by
  simp [owns, h]

/-- Filling a slot exchanges what it held for what it holds. -/
theorem slotsOwn_update (k e : ℕ) (slots : Slot → StackEndpoint) (slot : Slot)
    (x : StackEndpoint) :
    slotsOwn k e (Function.update slots slot x) + (slots slot).owns k e =
      slotsOwn k e slots + x.owns k e := by
  cases slot <;> simp [slotsOwn] <;> omega

/-- The controller of the call in progress. -/
def EndpointPc.controller? : EndpointPc → Option ℕ
  | .idle | .exiting _ | .exited => none
  | .test k _ | .create k _ _ | .push k _ _ _ | .pop k _ _ | .assign k _ _ _
  | .destroyTemp k _ _ _ | .ret k _ _ | .threw k _ => some k

/-! ### What holds of a controller -/

/-- Controller `k` made all objects of the wrapper. -/
def EndpointWrapper.MadeBy (creator : List ℕ) (k : ℕ) (w : EndpointWrapper) : Prop :=
  ∀ h ∈ w.handles, creator[h]? = some k

theorem EndpointWrapper.madeBy_default (creator : List ℕ) (k : ℕ) :
    EndpointWrapper.default.MadeBy creator k := by
  simp [MadeBy, EndpointWrapper.default, handles]

/-- Making more objects changes nothing about those made. -/
theorem EndpointWrapper.MadeBy.append {creator : List ℕ} {k : ℕ} {w : EndpointWrapper}
    (h : w.MadeBy creator k) (more : List ℕ) : w.MadeBy (creator ++ more) k := by
  intro i hi
  have hlt : i < creator.length := (List.getElem?_eq_some_iff.mp (h i hi)).1
  rw [List.getElem?_append_left hlt]
  exact h i hi

/-- A wrapper whose objects are among `m` new ones of controller `k`. -/
theorem EndpointWrapper.madeBy_create {creator : List ℕ} {k m ep : ℕ} {rq tq : Option ℕ}
    (hep : creator.length ≤ ep ∧ ep < creator.length + m)
    (hrq : ∀ i ∈ rq, creator.length ≤ i ∧ i < creator.length + m)
    (htq : ∀ i ∈ tq, creator.length ≤ i ∧ i < creator.length + m) :
    EndpointWrapper.MadeBy (creator ++ List.replicate m k) k ⟨some ep, rq, tq⟩ := by
  intro i hi
  have hrange : creator.length ≤ i ∧ i < creator.length + m := by
    simp only [handles, Option.toList_some, List.cons_append, List.nil_append, List.mem_cons,
      List.mem_append, Option.mem_toList] at hi
    rcases hi with rfl | hi | hi
    · exact hep
    · exact hrq i hi
    · exact htq i hi
  rw [List.getElem?_append_right hrange.1, List.getElem?_replicate, if_pos (by omega)]

/-- What holds of controller `k` throughout. -/
structure Controller.Inv (creator : List ℕ) (k : ℕ) (c : Controller) : Prop where
  queue : ∀ w ∈ c.txEndpoints, w.ep ≠ none ∧ w.MadeBy creator k
  rxEmpty : c.rxEndpoints = []
  epTx : c.epTx.MadeBy creator k
  epRx : c.epRx.MadeBy creator k
  shared : c.phase = .initialised →
    c.epRx.ep ≠ none ∧ (c.endpointType = .multiple → c.epTx.ep ≠ none)
  consumed : c.phase ≠ .destroyed → c.consumed = []
  nodup : c.pooled.Nodup
  pooled : ∀ e ∈ c.pooled, creator[e]? = some k

theorem Controller.Inv.append {creator : List ℕ} {k : ℕ} {c : Controller} (h : c.Inv creator k)
    (more : List ℕ) : c.Inv (creator ++ more) k where
  queue w hw := ⟨(h.queue w hw).1, (h.queue w hw).2.append more⟩
  rxEmpty := h.rxEmpty
  epTx := h.epTx.append more
  epRx := h.epRx.append more
  shared := h.shared
  consumed := h.consumed
  nodup := h.nodup
  pooled e he := by
    have hlt : e < creator.length := (List.getElem?_eq_some_iff.mp (h.pooled e he)).1
    rw [List.getElem?_append_left hlt]
    exact h.pooled e he

theorem Controller.inv_unborn (creator : List ℕ) (k : ℕ) : Controller.unborn.Inv creator k where
  queue := by simp [unborn]
  rxEmpty := rfl
  epTx := EndpointWrapper.madeBy_default creator k
  epRx := EndpointWrapper.madeBy_default creator k
  shared := by simp [unborn]
  consumed _ := rfl
  nodup := List.nodup_nil
  pooled := by simp [unborn]

/-- An endpoint can only be taken out of the queue of transmit endpoints. -/
theorem Controller.Inv.queue_eq_cons {creator : List ℕ} {k : ℕ} {c : Controller}
    (h : c.Inv creator k) {dir : Direction} {w : EndpointWrapper} {rest : List EndpointWrapper}
    (hqueue : c.queue dir = w :: rest) : dir = .tx ∧ c.txEndpoints = w :: rest := by
  cases dir with
  | tx => exact ⟨rfl, hqueue⟩
  | rx => cases h.rxEmpty.symm.trans hqueue

/-- The endpoints of the contexts of a scalable endpoint are new and different. -/
theorem Controller.Inv.contexts {creator : List ℕ} {k : ℕ} {c : Controller}
    (h : c.Inv creator k) (contexts : ℕ) :
    (c.pooled ++ (List.range contexts).map (creator.length + 4 + 2 * ·)).Nodup ∧
      (∀ e ∈ c.pooled ++ (List.range contexts).map (creator.length + 4 + 2 * ·),
        (creator ++ List.replicate (initializeCount contexts) k)[e]? = some k) ∧
      ∀ w ∈ c.txEndpoints ++ (List.range contexts).map (txContext creator.length),
        w.ep ≠ none ∧ w.MadeBy (creator ++ List.replicate (initializeCount contexts) k) k := by
  have hold := h.append (List.replicate (initializeCount contexts) k)
  refine ⟨?_, ?_, ?_⟩
  · refine List.Nodup.append h.nodup (List.nodup_range.map fun i j hij => by simpa using hij) ?_
    -- an endpoint made before has a smaller number than a new one
    intro e he hnew
    have hlt : e < creator.length := (List.getElem?_eq_some_iff.mp (h.pooled e he)).1
    obtain ⟨i, -, rfl⟩ := List.mem_map.mp hnew
    omega
  · intro e he
    rcases List.mem_append.mp he with he | he
    · exact hold.pooled e he
    · obtain ⟨i, hi, rfl⟩ := List.mem_map.mp he
      have hlt : i < contexts := List.mem_range.mp hi
      rw [List.getElem?_append_right (by omega), List.getElem?_replicate,
        if_pos (by rw [initializeCount]; omega)]
  · intro w hw
    rcases List.mem_append.mp hw with hw | hw
    · exact hold.queue w hw
    · obtain ⟨i, hi, rfl⟩ := List.mem_map.mp hw
      have hlt : i < contexts := List.mem_range.mp hi
      have hcount : 5 + 2 * i < initializeCount contexts := by
        rw [initializeCount]
        omega
      exact ⟨by simp [txContext],
        EndpointWrapper.madeBy_create (by omega) (by simp) (by simp; omega)⟩

theorem Controller.Inv.initializeAs {creator : List ℕ} {k : ℕ} {c : Controller}
    (h : c.Inv creator k) (hphase : c.phase ≠ .destroyed) (type : EndpointType) (contexts : ℕ)
    (dummyCq : Bool) :
    (c.initializeAs type contexts dummyCq creator.length).Inv
      (creator ++ List.replicate (initializeCount contexts) k) k := by
  have hold := h.append (List.replicate (initializeCount contexts) k)
  obtain ⟨hnodup, hpooled, hqueue⟩ := h.contexts contexts
  have hcount : 4 < initializeCount contexts := by
    rw [initializeCount]
    omega
  -- the first three objects are for `ep_rx_`, the next two for `ep_tx_`
  have hrx : EndpointWrapper.MadeBy (creator ++ List.replicate (initializeCount contexts) k) k
      ⟨some creator.length, some (creator.length + 1),
        if type = .single ∨ dummyCq then some (creator.length + 2) else none⟩ := by
    refine EndpointWrapper.madeBy_create (by omega) (by simp; omega) ?_
    split <;> simp
    omega
  have htx : ∀ tq : Option ℕ, (∀ i ∈ tq, i = creator.length + 4) →
      EndpointWrapper.MadeBy (creator ++ List.replicate (initializeCount contexts) k) k
        ⟨some (creator.length + 3), none, tq⟩ := by
    intro tq htq
    refine EndpointWrapper.madeBy_create (by omega) (by simp) fun i hi => ?_
    rw [htq i hi]
    omega
  cases type with
  | single | threadlocalTx =>
    exact ⟨hold.queue, h.rxEmpty, EndpointWrapper.madeBy_default _ _, hrx,
      by simp [Controller.initializeAs], fun _ => h.consumed hphase, h.nodup, hold.pooled⟩
  | multiple =>
    exact ⟨hold.queue, h.rxEmpty, htx _ (by simp), hrx, by simp [Controller.initializeAs],
      fun _ => h.consumed hphase, h.nodup, hold.pooled⟩
  | scalableTx | scalableTxRx =>
    exact ⟨hqueue, h.rxEmpty, htx _ (by simp), hrx, by simp [Controller.initializeAs],
      fun _ => h.consumed hphase, hnodup, hpooled⟩

/-! ### What holds of the process -/

@[simp]
theorem Process.modify_controllers_self (s : Process) (k : ℕ) (f : Controller → Controller) :
    (s.modify k f).controllers k = f (s.controllers k) := by
  simp [modify]

theorem Process.modify_controllers_ne (s : Process) {j k : ℕ} (f : Controller → Controller)
    (h : j ≠ k) : (s.modify k f).controllers j = s.controllers j := by
  simp [modify, h]

/-- What holds of a process throughout: only objects of controllers that are gone are closed. -/
structure Process.Inv (s : Process) : Prop where
  controllers : ∀ k, (s.controllers k).Inv s.creator k
  closed : ∀ h ∈ s.closed, ∃ k, s.creator[h]? = some k ∧ (s.controllers k).phase = .destroyed

theorem Process.Inv.modify {s : Process} (h : s.Inv) {k : ℕ} {f : Controller → Controller}
    (hf : (f (s.controllers k)).Inv s.creator k)
    (hphase : (s.controllers k).phase = .destroyed → (f (s.controllers k)).phase = .destroyed) :
    (s.modify k f).Inv where
  controllers j := by
    by_cases hj : j = k
    · subst hj
      rw [modify_controllers_self]
      exact hf
    · rw [modify_controllers_ne _ _ hj]
      exact h.controllers j
  closed i hi := by
    obtain ⟨j, hj, hdestroyed⟩ := h.closed i hi
    refine ⟨j, hj, ?_⟩
    by_cases hjk : j = k
    · subst hjk
      rw [modify_controllers_self]
      exact hphase hdestroyed
    · rwa [modify_controllers_ne _ _ hjk]

theorem Process.Inv.create {s : Process} (h : s.Inv) (k m : ℕ) : (s.create k m).Inv where
  controllers j := (h.controllers j).append _
  closed i hi := by
    obtain ⟨j, hj, hdestroyed⟩ := h.closed i hi
    have hlt : i < s.creator.length := (List.getElem?_eq_some_iff.mp hj).1
    exact ⟨j, by rw [Process.create, List.getElem?_append_left hlt, hj], hdestroyed⟩

theorem Process.Inv.setCalls {s : Process} (h : s.Inv) (k : ℕ) (f : ℕ → ℕ) :
    (s.modify k fun c => { c with calls := f c.calls }).Inv := by
  have hk := h.controllers k
  exact h.modify ⟨hk.queue, hk.rxEmpty, hk.epTx, hk.epRx, hk.shared, hk.consumed, hk.nodup,
    hk.pooled⟩ id

/-- A push of an endpoint by the controller that made it keeps the process as it should be. -/
theorem Process.Inv.push {s : Process} (h : s.Inv) {k : ℕ} {w : EndpointWrapper}
    (hep : w.ep ≠ none) (hmade : w.MadeBy s.creator k) : (s.push ⟨k, .tx⟩ w).Inv := by
  have hk := h.controllers k
  refine h.modify ⟨?_, hk.rxEmpty, hk.epTx, hk.epRx, hk.shared, hk.consumed, hk.nodup,
    hk.pooled⟩ id
  intro w' hw'
  rcases List.mem_append.mp hw' with hw' | hw'
  · exact hk.queue w' hw'
  · obtain rfl := List.mem_singleton.mp hw'
    exact ⟨hep, hmade⟩

/-- So does a destructor, since it closes what its controller made. -/
theorem Process.Inv.destroy {s : Process} (h : s.Inv) (k : ℕ) :
    Process.Inv { s.modify k Controller.destroy with
      closed := s.closed ++ (s.controllers k).cleanedUp } := by
  have hk := h.controllers k
  have hinv : (s.modify k Controller.destroy).Inv :=
    h.modify ⟨by simp [Controller.destroy], rfl, EndpointWrapper.madeBy_default _ _,
      EndpointWrapper.madeBy_default _ _, by simp [Controller.destroy],
      by simp [Controller.destroy], hk.nodup, hk.pooled⟩ fun _ => rfl
  refine ⟨hinv.controllers, fun i hi => ?_⟩
  rcases List.mem_append.mp hi with hi | hi
  · exact hinv.closed i hi
  · -- the destructor closes what the queues and the shared endpoints hold, all its own
    refine ⟨k, ?_, by simp [Controller.destroy]⟩
    obtain ⟨w, hw, hiw⟩ := List.mem_flatMap.mp hi
    simp only [hk.rxEmpty, List.append_nil, List.mem_append, List.mem_cons, List.not_mem_nil,
      or_false] at hw
    rcases hw with hw | rfl | rfl
    · exact (hk.queue w hw).2 i hiw
    · exact hk.epTx i hiw
    · exact hk.epRx i hiw

/-- What a step leaves alone: objects keep their maker, and a controller in use keeps its phase,
its type and its shared endpoints. -/
structure Process.Keeps (s s' : Process) : Prop where
  creator : ∀ h k : ℕ, s.creator[h]? = some k → s'.creator[h]? = some k
  phase : ∀ k, (s.controllers k).calls ≠ 0 → (s.controllers k).phase = .initialised →
    (s'.controllers k).phase = .initialised
  getEndpoint : ∀ k dir, (s.controllers k).calls ≠ 0 →
    (s'.controllers k).getEndpoint dir = (s.controllers k).getEndpoint dir

theorem Process.Keeps.refl (s : Process) : s.Keeps s :=
  ⟨fun _ _ h => h, fun _ _ h => h, fun _ _ _ => rfl⟩

theorem Process.Keeps.modify {s : Process} {k : ℕ} {f : Controller → Controller}
    (hf : (s.controllers k).calls ≠ 0 →
      ((s.controllers k).phase = .initialised → (f (s.controllers k)).phase = .initialised) ∧
        ∀ dir, (f (s.controllers k)).getEndpoint dir = (s.controllers k).getEndpoint dir) :
    s.Keeps (s.modify k f) where
  creator _ _ h := h
  phase j hj hphase := by
    by_cases hjk : j = k
    · subst hjk
      rw [modify_controllers_self]
      exact (hf hj).1 hphase
    · rwa [modify_controllers_ne _ _ hjk]
  getEndpoint j dir hj := by
    by_cases hjk : j = k
    · subst hjk
      rw [modify_controllers_self]
      exact (hf hj).2 dir
    · rw [modify_controllers_ne _ _ hjk]

theorem Process.Keeps.create {s s' : Process} (h : s.Keeps s') (k m : ℕ) :
    s.Keeps (s'.create k m) where
  creator i j hi := by
    have hlt : i < s'.creator.length := (List.getElem?_eq_some_iff.mp (h.creator i j hi)).1
    rw [Process.create, List.getElem?_append_left hlt]
    exact h.creator i j hi
  phase := h.phase
  getEndpoint := h.getEndpoint

theorem Controller.getEndpoint_setQueue (c : Controller) (d dir : Direction)
    (q : List EndpointWrapper) : (c.setQueue d q).getEndpoint dir = c.getEndpoint dir := by
  cases d <;> cases dir <;> rfl

theorem Process.Keeps.setQueue {s : Process} (k : ℕ) (dir : Direction)
    (q : List EndpointWrapper) : s.Keeps (s.modify k fun c => c.setQueue dir q) :=
  .modify fun _ => ⟨by cases dir <;> exact id, fun d => Controller.getEndpoint_setQueue _ _ d _⟩

theorem Process.Keeps.destruct (s : Process) (x : StackEndpoint) : s.Keeps (x.destruct s) := by
  unfold StackEndpoint.destruct
  split
  · exact .refl s
  · exact .setQueue _ _ _

/-- Every step of a thread keeps what it has to leave alone. -/
theorem EndpointStep.keeps {t : ℕ} {s s' : Process} {l l' : ThreadState}
    (h : EndpointStep t s l s' l') : s.Keeps s' := by
  cases h with
  | construct k hpc hphase =>
    exact .modify fun _ => ⟨fun hne => absurd (hphase.symm.trans hne) (by decide),
      fun d => by cases d <;> rfl⟩
  | initializeAs k type contexts dummyCq hpc hphase hcalls htype =>
    exact .create (.modify fun hne => absurd hcalls hne) _ _
  | destroy k hpc hphase hcalls =>
    have hkeeps : s.Keeps (s.modify k Controller.destroy) := .modify fun hne => absurd hcalls hne
    exact ⟨hkeeps.creator, hkeeps.phase, hkeeps.getEndpoint⟩
  | call k dir hpc hphase => exact .modify fun _ => ⟨id, fun d => by cases d <;> rfl⟩
  | create hpc => exact .create (.modify fun _ => ⟨id, fun d => by cases d <;> rfl⟩) _ _
  | push hpc => exact .setQueue _ _ _
  | pop hpc hqueue => exact .setQueue _ _ _
  | destroyTemp hpc => exact .destruct _ _
  | destroySlot hpc => exact .destruct _ _
  | ret hpc => exact .modify fun _ => ⟨id, fun d => by cases d <;> rfl⟩
  | threw hpc => exact .modify fun _ => ⟨id, fun d => by cases d <;> rfl⟩
  | test | popFail | assign | exit | exited => exact .refl _

/-! ### What holds of a thread -/

/-- A `stack_endpoint` with a pool has an endpoint that the owner of the pool made, and the pool
is a queue of transmit endpoints. -/
def StackEndpoint.Sound (creator : List ℕ) (x : StackEndpoint) : Prop :=
  ∀ pool, x.pool = some pool →
    pool.dir = .tx ∧ x.endpoint.ep ≠ none ∧ x.endpoint.MadeBy creator pool.controller

theorem StackEndpoint.sound_of_pool_eq_none {creator : List ℕ} {x : StackEndpoint}
    (h : x.pool = none) : x.Sound creator := by
  intro pool hpool
  rw [h] at hpool
  cases hpool

/-- The slot that a branch looks at. -/
def Route.slot? : Route → Option Slot
  | .threadlocal slot | .scalable slot => some slot
  | .shared _ => none

/-- The endpoint that a branch returns, given the slots at that time. -/
def Route.Returns (slots : Slot → StackEndpoint) (w : EndpointWrapper) : Route → Prop
  | .threadlocal slot | .scalable slot => w = (slots slot).endpoint ∧ w.ep ≠ none
  | .shared w' => w = w'

/-- Where the test of the slot leads. -/
theorem ThreadState.testSlot_cases (l : ThreadState) (k : ℕ) (dir : Direction) (route : Route) :
    (∃ slot, route = .threadlocal slot ∧ (l.slots slot).endpoint.ep = none ∧
        l.testSlot k dir route = .create k dir slot) ∨
      (∃ slot, route = .scalable slot ∧ (l.slots slot).endpoint.ep = none ∧
        l.testSlot k dir route = .pop k dir slot) ∨
      ∃ w, route.Returns l.slots w ∧ l.testSlot k dir route = .ret k dir w := by
  cases route with
  | threadlocal slot =>
    by_cases hslot : (l.slots slot).endpoint.ep = none
    · exact .inl ⟨slot, rfl, hslot, if_pos hslot⟩
    · exact .inr (.inr ⟨_, ⟨rfl, hslot⟩, if_neg hslot⟩)
  | scalable slot =>
    by_cases hslot : (l.slots slot).endpoint.ep = none
    · exact .inr (.inl ⟨slot, rfl, hslot, if_pos hslot⟩)
    · exact .inr (.inr ⟨_, ⟨rfl, hslot⟩, if_neg hslot⟩)
  | shared w => exact .inr (.inr ⟨w, rfl, rfl⟩)

/-- What holds of a thread at each point of a call. -/
def EndpointPc.Inv (s : Process) (slots : Slot → StackEndpoint) : EndpointPc → Prop
  | .create k dir slot =>
    (s.controllers k).getEndpoint dir = .threadlocal slot ∧ (slots slot).endpoint.ep = none
  | .push k dir slot w =>
    (s.controllers k).getEndpoint dir = .threadlocal slot ∧ (slots slot).endpoint.ep = none ∧
      w.ep ≠ none ∧ w.MadeBy s.creator k
  | .pop k dir slot =>
    (s.controllers k).getEndpoint dir = .scalable slot ∧ (slots slot).endpoint.ep = none
  | .assign k dir slot temp =>
    ((s.controllers k).getEndpoint dir).slot? = some slot ∧ (slots slot).endpoint.ep = none ∧
      temp.endpoint.ep ≠ none ∧ temp.endpoint.MadeBy s.creator k ∧ temp.Sound s.creator
  | .destroyTemp k dir slot temp =>
    ((s.controllers k).getEndpoint dir).slot? = some slot ∧ (slots slot).endpoint.ep ≠ none ∧
      (slots slot).endpoint.MadeBy s.creator k ∧ temp.pool = none
  | .ret k dir w => ((s.controllers k).getEndpoint dir).Returns slots w
  | .exiting rest => ∀ slot ∉ rest, slots slot = .default
  | .exited => ∀ slot, slots slot = .default
  | .idle | .test _ _ | .threw _ _ => True

/-- What holds of a thread throughout. -/
structure ThreadState.Inv (s : Process) (l : ThreadState) : Prop where
  process : s.Inv
  live : ∀ k, l.pc.controller? = some k → (s.controllers k).phase = .initialised
  slots : ∀ slot, (l.slots slot).Sound s.creator
  pc : l.pc.Inv s l.slots

section Keeps

variable {s s' : Process} {l : ThreadState}

theorem EndpointWrapper.MadeBy.keeps {k : ℕ} {w : EndpointWrapper} (h : w.MadeBy s.creator k)
    (hkeeps : s.Keeps s') : w.MadeBy s'.creator k :=
  fun i hi => hkeeps.creator i k (h i hi)

theorem StackEndpoint.Sound.keeps {x : StackEndpoint} (h : x.Sound s.creator)
    (hkeeps : s.Keeps s') : x.Sound s'.creator :=
  fun pool hpool => ⟨(h pool hpool).1, (h pool hpool).2.1, (h pool hpool).2.2.keeps hkeeps⟩

/-- What a thread knows stays true if its controller, being in use, is left alone. -/
theorem EndpointPc.Inv.keeps {slots : Slot → StackEndpoint} {pc : EndpointPc}
    (h : pc.Inv s slots) (hkeeps : s.Keeps s')
    (hbusy : ∀ k, pc.controller? = some k → (s.controllers k).calls ≠ 0) :
    pc.Inv s' slots := by
  cases pc with
  | idle | test | threw | exiting | exited => exact h
  | create k dir slot | pop k dir slot =>
    exact ⟨(hkeeps.getEndpoint k dir (hbusy k rfl)).trans h.1, h.2⟩
  | push k dir slot w =>
    obtain ⟨hroute, hslot, hep, hmade⟩ := h
    exact ⟨(hkeeps.getEndpoint k dir (hbusy k rfl)).trans hroute, hslot, hep, hmade.keeps hkeeps⟩
  | assign k dir slot temp =>
    obtain ⟨hroute, hslot, hep, hmade, hsound⟩ := h
    refine ⟨?_, hslot, hep, hmade.keeps hkeeps, hsound.keeps hkeeps⟩
    rw [hkeeps.getEndpoint k dir (hbusy k rfl), hroute]
  | destroyTemp k dir slot temp =>
    obtain ⟨hroute, hep, hmade, hpool⟩ := h
    refine ⟨?_, hep, hmade.keeps hkeeps, hpool⟩
    rw [hkeeps.getEndpoint k dir (hbusy k rfl), hroute]
  | ret k dir w =>
    show ((s'.controllers k).getEndpoint dir).Returns slots w
    rw [hkeeps.getEndpoint k dir (hbusy k rfl)]
    exact h

theorem ThreadState.Inv.keeps (h : l.Inv s) (hkeeps : s.Keeps s') (hprocess : s'.Inv)
    (hbusy : ∀ k, l.pc.controller? = some k → (s.controllers k).calls ≠ 0) : l.Inv s' where
  process := hprocess
  live k hk := hkeeps.phase k (hbusy k hk) (h.live k hk)
  slots slot := (h.slots slot).keeps hkeeps
  pc := h.pc.keeps hkeeps hbusy

/-- A slot that is empty has no pool. -/
theorem ThreadState.Inv.pool_eq_none (h : l.Inv s) {slot : Slot}
    (hslot : (l.slots slot).endpoint.ep = none) : (l.slots slot).pool = none := by
  cases hpool : (l.slots slot).pool with
  | none => rfl
  | some pool => exact absurd hslot (h.slots slot pool hpool).2.1

end Keeps

theorem Process.Inv.destruct {s : Process} (h : s.Inv) {x : StackEndpoint}
    (hx : x.Sound s.creator) : (x.destruct s).Inv := by
  unfold StackEndpoint.destruct
  split
  · exact h
  · next pool hpool =>
    obtain ⟨hdir, hep, hmade⟩ := hx pool hpool
    obtain ⟨k, dir⟩ := pool
    obtain rfl : dir = .tx := hdir
    exact h.push hep hmade

theorem StackEndpoint.sound_default (creator : List ℕ) : StackEndpoint.default.Sound creator :=
  sound_of_pool_eq_none rfl

section OwnStep

variable {t : ℕ} {s s' : Process} {l l' : ThreadState}

/-- A step of a thread keeps what holds of the process. -/
theorem ThreadState.Inv.process_step (h : l.Inv s) (hstep : EndpointStep t s l s' l') :
    s'.Inv := by
  have hpc := h.pc
  cases hstep with
  | construct k hidle hphase =>
    have hk := h.process.controllers k
    refine h.process.modify ⟨hk.queue, hk.rxEmpty, hk.epTx, hk.epRx, ?_, ?_, hk.nodup, hk.pooled⟩ ?_
    · intro hinit
      cases hinit
    · exact fun _ => hk.consumed (by rw [hphase]; decide)
    · exact fun hdestroyed => absurd (hphase.symm.trans hdestroyed) (by decide)
  | initializeAs k type contexts dummyCq hidle hphase hcalls htype =>
    have hne : (s.controllers k).phase ≠ .destroyed := by
      rcases hphase with hphase | hphase <;> rw [hphase] <;> decide
    have hcreate := h.process.create k (initializeCount contexts)
    exact hcreate.modify (k := k) (f := fun c => c.initializeAs type contexts dummyCq _)
      ((h.process.controllers k).initializeAs hne type contexts dummyCq)
      fun hdestroyed => absurd hdestroyed hne
  | destroy k hidle hphase hcalls => exact h.process.destroy k
  | call k dir hidle hphase => exact h.process.setCalls k (· + 1)
  | @create k dir slot hcreate =>
    have hk := (h.process.controllers k).append (List.replicate 2 k)
    have hp := h.process.create k 2
    refine hp.modify (k := k)
      (f := fun c => { c with pooled := c.pooled ++ [s.creator.length + 1] })
      ⟨hk.queue, hk.rxEmpty, hk.epTx, hk.epRx, hk.shared, hk.consumed, ?_, ?_⟩ id
    · refine List.Nodup.append hk.nodup (List.nodup_singleton _) ?_
      -- the new endpoint has a number that no endpoint made before has
      intro e he hnew
      obtain rfl := List.mem_singleton.mp hnew
      have hlt := (List.getElem?_eq_some_iff.mp ((h.process.controllers k).pooled _ he)).1
      omega
    · intro e he
      rcases List.mem_append.mp he with he | he
      · exact hk.pooled e he
      · obtain rfl := List.mem_singleton.mp he
        simp [Process.create]
  | push hpush =>
    rw [hpush] at hpc
    exact h.process.push hpc.2.2.1 hpc.2.2.2
  | @pop k dir slot w rest hpop hqueue =>
    have hk := h.process.controllers k
    obtain ⟨rfl, htx⟩ := hk.queue_eq_cons hqueue
    refine h.process.modify ⟨fun w' hw' => ?_, hk.rxEmpty, hk.epTx, hk.epRx, hk.shared,
      hk.consumed, hk.nodup, hk.pooled⟩ id
    exact hk.queue w' (htx ▸ List.mem_cons_of_mem w hw')
  | destroyTemp hdestroy =>
    -- the temporary has no pool any more, and so its destructor does nothing
    rw [hdestroy] at hpc
    exact h.process.destruct (StackEndpoint.sound_of_pool_eq_none hpc.2.2.2)
  | destroySlot hexit => exact h.process.destruct (h.slots _)
  | ret hret => exact h.process.setCalls _ (· - 1)
  | threw hthrew => exact h.process.setCalls _ (· - 1)
  | test | popFail | assign | exit | exited => exact h.process

/-- A step of a thread keeps what holds of it. -/
theorem ThreadState.Inv.step (h : l.Inv s)
    (hbusy : ∀ k, l.pc.controller? = some k → (s.controllers k).calls ≠ 0)
    (hstep : EndpointStep t s l s' l') : l'.Inv s' := by
  have hkeeps := hstep.keeps
  -- what the thread knew before the step is still true after it
  have hold := h.keeps hkeeps (h.process_step hstep) hbusy
  have hpc := hold.pc
  have hlive := hold.live
  cases hstep with
  | construct | initializeAs | destroy => exact hold
  | call k dir hidle hphase =>
    refine ⟨hold.process, fun j hj => ?_, hold.slots, trivial⟩
    obtain rfl : k = j := Option.some.inj hj
    rw [Process.modify_controllers_self]
    exact hphase
  | @test k dir htest =>
    rw [htest] at hlive
    rcases l.testSlot_cases k dir ((s.controllers k).getEndpoint dir) with
      ⟨slot, hroute, hslot, htestSlot⟩ | ⟨slot, hroute, hslot, htestSlot⟩ | ⟨w, hw, htestSlot⟩
    · rw [htestSlot]
      exact ⟨h.process, hlive, h.slots, hroute, hslot⟩
    · rw [htestSlot]
      exact ⟨h.process, hlive, h.slots, hroute, hslot⟩
    · rw [htestSlot]
      exact ⟨h.process, hlive, h.slots, hw⟩
  | @create k dir slot hcreate =>
    rw [hcreate] at hlive hpc
    obtain ⟨hroute, hslot⟩ := hpc
    refine ⟨hold.process, hlive, hold.slots, hroute, hslot, by simp, ?_⟩
    show EndpointWrapper.MadeBy (s.creator ++ List.replicate 2 k) k _
    exact EndpointWrapper.madeBy_create (by omega) (by simp) (by simp)
  | popFail hpop =>
    rw [hpop] at hlive
    exact ⟨h.process, hlive, h.slots, trivial⟩
  | @push k dir slot w hpush =>
    rw [hpush] at hlive hpc
    obtain ⟨hroute, hslot, hep, hmade⟩ := hpc
    refine ⟨hold.process, hlive, hold.slots, ?_, hslot, hep, hmade,
      StackEndpoint.sound_of_pool_eq_none rfl⟩
    rw [hroute]
    rfl
  | @pop k dir slot w rest hpop hqueue =>
    rw [hpop] at hlive hpc
    obtain ⟨hroute, hslot⟩ := hpc
    have hk := h.process.controllers k
    obtain ⟨rfl, htx⟩ := hk.queue_eq_cons hqueue
    obtain ⟨hep, hmade⟩ := hk.queue w (htx ▸ List.mem_cons_self)
    refine ⟨hold.process, hlive, hold.slots, ?_, hslot, hep, hmade, ?_⟩
    · rw [hroute]
      rfl
    · -- the temporary will push the endpoint back to the queue that it came from
      intro pool hpool
      obtain rfl := Option.some.inj hpool
      exact ⟨rfl, hep, hmade⟩
  | @assign k dir slot temp hassign =>
    rw [hassign] at hlive hpc
    obtain ⟨hroute, -, hep, hmade, hsound⟩ := hpc
    refine ⟨h.process, hlive, fun slot' => ?_, hroute, ?_, ?_, rfl⟩
    · by_cases hne : slot' = slot
      · subst hne
        simpa [ThreadState.assignSlot, StackEndpoint.moveAssign] using hsound
      · simpa [ThreadState.assignSlot, hne] using h.slots slot'
    · simpa [ThreadState.assignSlot, StackEndpoint.moveAssign] using hep
    · simpa [ThreadState.assignSlot, StackEndpoint.moveAssign] using hmade
  | @destroyTemp k dir slot temp hdestroy =>
    rw [hdestroy] at hlive hpc
    obtain ⟨hroute, hep, -, hpool⟩ := hpc
    refine ⟨hold.process, hlive, hold.slots, ?_⟩
    show (((temp.destruct s).controllers k).getEndpoint dir).Returns l.slots _
    -- the slot that the branch returns is the one that was filled
    cases hbranch : ((temp.destruct s).controllers k).getEndpoint dir with
    | shared w =>
      rw [hbranch] at hroute
      cases hroute
    | threadlocal slot' | scalable slot' =>
      rw [hbranch] at hroute
      obtain rfl : slot' = slot := Option.some.inj hroute
      exact ⟨rfl, hep⟩
  | ret | threw => exact ⟨hold.process, fun j hj => (by cases hj), hold.slots, trivial⟩
  | exit order hidle horder =>
    refine ⟨h.process, fun j hj => (by cases hj), h.slots, fun slot hslot => ?_⟩
    -- no slot is left out of the order
    have hmem : slot ∈ [Slot.tlTx, .tlStx, .tlSrx] := by cases slot <;> decide
    exact absurd (horder.mem_iff.mpr hmem) hslot
  | @destroySlot slot rest hexit =>
    rw [hexit] at hpc
    refine ⟨hold.process, fun j hj => (by cases hj), fun slot' => ?_, fun slot' hslot' => ?_⟩
    · by_cases hne : slot' = slot
      · subst hne
        simpa using StackEndpoint.sound_default _
      · simpa [hne] using hold.slots slot'
    · by_cases hne : slot' = slot
      · subst hne
        simp
      · simpa [hne] using hpc slot' (by simp [hne, hslot'])
  | exited hexit =>
    rw [hexit] at hpc
    exact ⟨h.process, fun j hj => (by cases hj), h.slots, fun slot => hpc slot (by simp)⟩

end OwnStep

end LibFatbat
