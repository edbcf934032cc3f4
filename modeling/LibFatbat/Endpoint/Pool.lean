import LibFatbat.Endpoint.Invariants

/-!
# Who holds the endpoints of a controller

What the invariants of `endpointSystem` say about a scalable endpoint pool:

* `calls_eq`: the number of calls in progress on a controller is the number of threads in one, so
  that a controller in use is neither initialised again nor destroyed;
* `stock_add_owns`: an endpoint made for `tx_endpoints_` is in the queue, was taken out of it by
  the destructor, or is held by one thread, and this exactly once;
* `scalablePool_exclusive`: the consequences for a live scalable controller.
-/

open Concurrent

namespace LibFatbat

/-! ### Counting over the threads -/

section Balance

variable {t : ℕ} {s s' : Process} {l l' : ThreadState}

/-- A number read off each controller stays the same if the one changed keeps it. -/
theorem Process.modify_eq {α : Type*} (g : Controller → α) (s : Process) (k : ℕ)
    {f : Controller → Controller} (hf : g (f (s.controllers k)) = g (s.controllers k)) (j : ℕ) :
    g ((s.modify k f).controllers j) = g (s.controllers j) := by
  by_cases hj : j = k
  · subst hj
    rw [modify_controllers_self, hf]
  · rw [modify_controllers_ne _ _ hj]

theorem Process.modify_cases (s : Process) (j k : ℕ) (f : Controller → Controller) :
    k = j ∧ (s.modify j f).controllers k = f (s.controllers k) ∨
      k ≠ j ∧ (s.modify j f).controllers k = s.controllers k := by
  by_cases h : k = j
  · subst h
    exact .inl ⟨rfl, s.modify_controllers_self k f⟩
  · exact .inr ⟨h, s.modify_controllers_ne f h⟩

theorem Process.destruct_eq {α : Type*} (g : Controller → α)
    (hg : ∀ c dir q, g (Controller.setQueue c dir q) = g c) (s : Process) (x : StackEndpoint)
    (j : ℕ) : g ((x.destruct s).controllers j) = g (s.controllers j) := by
  unfold StackEndpoint.destruct
  split
  · rfl
  · exact modify_eq g s _ (hg _ _ _) j

/-- What a step does to the calls in progress: nothing, or it begins one, or it ends one. -/
theorem EndpointStep.calls (h : EndpointStep t s l s' l') :
    (l'.pc.controller? = l.pc.controller? ∧
        ∀ k, (s'.controllers k).calls = (s.controllers k).calls) ∨
      (∃ k, l.pc.controller? = none ∧ l'.pc.controller? = some k ∧
        s' = s.modify k fun c => { c with calls := c.calls + 1 }) ∨
      (∃ k, l.pc.controller? = some k ∧ l'.pc.controller? = none ∧
        s' = s.modify k fun c => { c with calls := c.calls - 1 }) := by
  have hqueue : ∀ c dir q, (Controller.setQueue c dir q).calls = c.calls := by
    intro c dir q
    cases dir <;> rfl
  -- a call begins and ends with `call`, `ret` and `threw`; no other step changes the count
  cases h with
  | construct k hpc => exact .inl ⟨rfl, Process.modify_eq Controller.calls s k rfl⟩
  | initializeAs k type contexts dummyCq hpc =>
    refine .inl ⟨rfl, fun j => ?_⟩
    refine Process.modify_eq Controller.calls s k (f := fun c =>
      c.initializeAs type contexts dummyCq s.creator.length) ?_ j
    cases type <;> rfl
  | destroy k hpc =>
    exact .inl ⟨rfl, Process.modify_eq Controller.calls s k (f := Controller.destroy) rfl⟩
  | call k dir hpc => exact .inr (.inl ⟨k, by rw [hpc]; rfl, rfl, rfl⟩)
  | @test k dir hpc =>
    refine .inl ⟨?_, fun _ => rfl⟩
    rw [hpc]
    rcases l.testSlot_cases k dir ((s.controllers k).getEndpoint dir) with
      ⟨slot, -, -, htest⟩ | ⟨slot, -, -, htest⟩ | ⟨w, -, htest⟩ <;> rw [htest] <;> rfl
  | @create k dir slot hpc =>
    refine .inl ⟨by rw [hpc]; rfl, ?_⟩
    exact Process.modify_eq Controller.calls s k
      (f := fun c => { c with pooled := c.pooled ++ [s.creator.length + 1] }) rfl
  | push hpc => exact .inl ⟨by rw [hpc]; rfl, Process.modify_eq Controller.calls s _ rfl⟩
  | pop hpc =>
    exact .inl ⟨by rw [hpc]; rfl, Process.modify_eq Controller.calls s _ (hqueue _ _ _)⟩
  | destroyTemp hpc =>
    exact .inl ⟨by rw [hpc]; rfl, Process.destruct_eq Controller.calls hqueue s _⟩
  | destroySlot hpc =>
    exact .inl ⟨by rw [hpc]; rfl, Process.destruct_eq Controller.calls hqueue s _⟩
  | ret hpc | threw hpc => exact .inr (.inr ⟨_, by rw [hpc]; rfl, rfl, rfl⟩)
  | popFail hpc | assign hpc | exit _ hpc | exited hpc =>
    exact .inl ⟨by rw [hpc]; rfl, fun _ => rfl⟩

/-- How often endpoint `e` is in the queue, or was taken out of it by the destructor. -/
def Controller.stock (e : ℕ) (c : Controller) : ℕ :=
  c.txEndpoints.countP (·.ep = some e) + c.consumed.countP (·.ep = some e)

/-- A new scalable endpoint has each of its contexts in the queue. -/
theorem Controller.stock_initializeAs (c : Controller) (type : EndpointType) (contexts : ℕ)
    (dummyCq : Bool) (base e : ℕ) :
    (c.initializeAs type contexts dummyCq base).stock e + c.pooled.count e =
      c.stock e + (c.initializeAs type contexts dummyCq base).pooled.count e := by
  have hcontexts : ((List.range contexts).map (txContext base)).countP (·.ep = some e) =
      ((List.range contexts).map (base + 4 + 2 * ·)).count e := by
    rw [List.count_eq_countP, List.countP_map, List.countP_map]
    refine List.countP_congr fun i _ => ?_
    simp [txContext]
  cases type with
  | single | multiple | threadlocalTx => rfl
  | scalableTx | scalableTxRx =>
    simp only [initializeAs, stock, List.countP_append, List.count_append, hcontexts]
    omega

/-- A push adds the endpoint to the queue. -/
theorem stock_push (s : Process) (j : ℕ) (w : EndpointWrapper) (k e : ℕ) :
    ((s.push ⟨j, .tx⟩ w).controllers k).stock e =
        (s.controllers k).stock e + (if j = k ∧ w.ep = some e then 1 else 0) ∧
      ((s.push ⟨j, .tx⟩ w).controllers k).pooled = (s.controllers k).pooled := by
  rcases s.modify_cases j k fun c => c.setQueue .tx (c.queue .tx ++ [w]) with
    ⟨rfl, hs⟩ | ⟨hne, hs⟩
  · rw [Process.push, hs]
    simp only [Controller.setQueue, Controller.queue, Controller.stock, List.countP_append,
      List.countP_singleton, decide_eq_true_eq, true_and, and_true]
    omega
  · rw [Process.push, hs]
    simp [Ne.symm hne]

/-- Pushing an endpoint with a pool back moves it from the thread to the queue. -/
theorem stock_destruct (s : Process) {x : StackEndpoint} (hx : x.Sound s.creator) (k e : ℕ) :
    ((x.destruct s).controllers k).stock e = (s.controllers k).stock e + x.owns k e := by
  obtain ⟨w, pool⟩ := x
  cases pool with
  | none => simp [StackEndpoint.destruct]
  | some pool =>
    obtain ⟨j, dir⟩ := pool
    obtain rfl : dir = .tx := (hx _ rfl).1
    simp only [StackEndpoint.destruct, StackEndpoint.owns, (stock_push s j w k e).1,
      Option.some.injEq, PoolRef.mk.injEq, and_true]

/-- Every step keeps the balance of endpoint `e` of controller `k`. -/
theorem ThreadState.Inv.stock (h : l.Inv s) (hstep : EndpointStep t s l s' l') (k e : ℕ) :
    (s'.controllers k).stock e + l'.owns k e + (s.controllers k).pooled.count e =
      (s.controllers k).stock e + l.owns k e + (s'.controllers k).pooled.count e := by
  have hinv := h.pc
  cases hstep with
  | construct j hpc =>
    rcases s.modify_cases j k fun c => { c with phase := .constructed } with
      ⟨rfl, hs⟩ | ⟨-, hs⟩
    · rw [hs]
      rfl
    · rw [hs]
  | initializeAs j type contexts dummyCq hpc =>
    rcases s.modify_cases j k fun c => c.initializeAs type contexts dummyCq s.creator.length with
      ⟨rfl, hs⟩ | ⟨-, hs⟩
    · have hbal := (s.controllers k).stock_initializeAs type contexts dummyCq s.creator.length e
      simp only [Process.create, hs]
      omega
    · simp only [Process.create, hs]
  | destroy j hpc =>
    rcases s.modify_cases j k Controller.destroy with ⟨rfl, hs⟩ | ⟨-, hs⟩
    · -- what the queue held is consumed
      simp only [hs, Controller.stock, Controller.destroy, List.countP_append, List.countP_nil]
      omega
    · simp only [hs]
  | call j dir hpc =>
    rcases s.modify_cases j k fun c => { c with calls := c.calls + 1 } with
      ⟨rfl, hs⟩ | ⟨-, hs⟩ <;> simp [hs, ThreadState.owns, EndpointPc.owns, hpc, Controller.stock]
  | @test j dir hpc =>
    have hzero : (l.testSlot j dir ((s.controllers j).getEndpoint dir)).owns k e = 0 := by
      rcases l.testSlot_cases j dir ((s.controllers j).getEndpoint dir) with
        ⟨slot, -, -, htest⟩ | ⟨slot, -, -, htest⟩ | ⟨w, -, htest⟩ <;> rw [htest] <;> rfl
    have hbefore : (EndpointPc.test j dir).owns k e = 0 := rfl
    simp only [ThreadState.owns, hpc, hzero, hbefore]
  | @create j dir slot hpc =>
    rcases s.modify_cases j k fun c => { c with pooled := c.pooled ++ [s.creator.length + 1] } with
      ⟨rfl, hs⟩ | ⟨hne, hs⟩
    · -- the endpoint is made, and in the hands of the thread that will push it
      simp only [Process.create, hs, ThreadState.owns, EndpointPc.owns, hpc, Controller.stock,
        List.count_append, List.count_singleton, beq_iff_eq, Option.some.injEq, true_and]
      omega
    · simp [Process.create, hs, ThreadState.owns, EndpointPc.owns, hpc, Ne.symm hne]
  | @push j dir slot w hpc =>
    obtain ⟨hstock, hpooled⟩ := stock_push s j w k e
    have htemp : (StackEndpoint.mk w none).owns k e = 0 := StackEndpoint.owns_of_pool_eq_none rfl
    simp only [ThreadState.owns, EndpointPc.owns, hpc, htemp, hpooled]
    omega
  | @pop j dir slot w rest hpc hqueue =>
    obtain ⟨rfl, htx⟩ := (h.process.controllers j).queue_eq_cons hqueue
    rcases s.modify_cases j k fun c => c.setQueue .tx rest with ⟨rfl, hs⟩ | ⟨hne, hs⟩
    · -- the head of the queue goes to the hands of the thread
      rw [hs]
      simp only [ThreadState.owns, EndpointPc.owns, hpc, Controller.stock, Controller.setQueue,
        htx, List.countP_cons, decide_eq_true_eq, StackEndpoint.owns, true_and]
      omega
    · simp [hs, ThreadState.owns, EndpointPc.owns, hpc, StackEndpoint.owns, Ne.symm hne]
  | @assign j dir slot temp hpc =>
    rw [hpc] at hinv
    -- nothing is lost by overwriting the slot, as it is empty
    have hnone : (l.slots slot).owns k e = 0 :=
      StackEndpoint.owns_of_pool_eq_none (h.pool_eq_none hinv.2.1)
    obtain ⟨w, pool⟩ := temp
    have hslots := slotsOwn_update k e l.slots slot ⟨w, pool⟩
    have htemp : (StackEndpoint.mk w none).owns k e = 0 :=
      StackEndpoint.owns_of_pool_eq_none rfl
    simp only [ThreadState.assignSlot, StackEndpoint.moveAssign, ThreadState.owns,
      EndpointPc.owns, hpc, htemp]
    omega
  | @destroyTemp j dir slot temp hpc =>
    rw [hpc] at hinv
    have hpool : temp.pool = none := hinv.2.2.2
    simp [StackEndpoint.destruct, hpool, ThreadState.owns, EndpointPc.owns, hpc]
  | @ret j dir w hpc | @threw j dir hpc =>
    rcases s.modify_cases j k fun c => { c with calls := c.calls - 1 } with
      ⟨rfl, hs⟩ | ⟨-, hs⟩ <;> simp [hs, ThreadState.owns, EndpointPc.owns, hpc, Controller.stock]
  | exit order hpc | exited hpc | popFail hpc =>
    simp [ThreadState.owns, EndpointPc.owns, hpc]
  | @destroySlot slot rest hpc =>
    have hstock := stock_destruct s (h.slots slot) k e
    have hslots := slotsOwn_update k e l.slots slot .default
    have hpooled := Process.destruct_eq Controller.pooled
      (fun c dir q => by cases dir <;> rfl) s (l.slots slot) k
    have hdefault : StackEndpoint.default.owns k e = 0 :=
      StackEndpoint.owns_of_pool_eq_none rfl
    simp only [ThreadState.owns, EndpointPc.owns, hpc, hpooled]
    omega

end Balance

/-! ### Runs -/

section Runs

variable {c : Config Process ThreadState}

/-- 1 for a thread in a call on controller `k`. -/
def EndpointPc.inCall (k : ℕ) (pc : EndpointPc) : ℕ := if pc.controller? = some k then 1 else 0

/-- The calls in progress on a controller are those of the threads in one. -/
theorem calls_eq (hc : endpointSystem.Reachable c) (k : ℕ) :
    (c.threads.map fun l => l.pc.inCall k).sum = (c.shared.controllers k).calls := by
  have h := hc.conserved (fun _ => 0) (fun s => (s.controllers k).calls)
    (fun l => l.pc.inCall k) ?_ ?_
  · simpa using h
  · rintro c ⟨hshared, hthreads⟩
    have hzero : (c.threads.map fun l => l.pc.inCall k).sum = 0 := by
      refine List.sum_eq_zero fun x hx => ?_
      obtain ⟨l, hl, rfl⟩ := List.mem_map.mp hx
      rw [hthreads l hl]
      rfl
    rw [hzero, hshared]
    rfl
  · intro c t l s' l' _ _ hle hstep
    rcases hstep.calls with ⟨hpc, hcalls⟩ | ⟨j, hpc, hpc', rfl⟩ | ⟨j, hpc, hpc', rfl⟩
    · simp only [EndpointPc.inCall, hpc, hcalls k]
    · by_cases hj : k = j
      · subst hj
        simp [EndpointPc.inCall, hpc, hpc']
        omega
      · simp [EndpointPc.inCall, hpc, hpc', Process.modify_controllers_ne _ _ hj, Ne.symm hj]
    · by_cases hj : k = j
      · subst hj
        -- the thread's own call is among those counted
        simp [EndpointPc.inCall, hpc, hpc'] at hle ⊢
        omega
      · simp [EndpointPc.inCall, hpc, hpc', Process.modify_controllers_ne _ _ hj, Ne.symm hj]

/-- A thread in a call keeps the controller in use. -/
theorem calls_ne_zero (hc : endpointSystem.Reachable c) {t : ℕ} {l : ThreadState}
    (hget : c.threads[t]? = some l) {k : ℕ} (hk : l.pc.controller? = some k) :
    (c.shared.controllers k).calls ≠ 0 := by
  have hle : l.pc.inCall k ≤ (c.threads.map fun l => l.pc.inCall k).sum :=
    ThreadSystem.le_sum_map (fun l : ThreadState => l.pc.inCall k) hget
  have hone : l.pc.inCall k = 1 := by simp [EndpointPc.inCall, hk]
  have heq := calls_eq hc k
  omega

/-- What holds of each thread of each reachable configuration. -/
theorem ThreadState.Inv.reachable (hc : endpointSystem.Reachable c) (t : ℕ) (l : ThreadState)
    (hget : c.threads[t]? = some l) : l.Inv c.shared := by
  refine hc.forall_threads (P := fun _ s l => l.Inv s) ?_ ?_ ?_ t l hget
  · rintro c ⟨hshared, hthreads⟩ t l hget
    rw [hthreads l (List.mem_of_getElem? hget), hshared]
    refine ⟨⟨fun k => Controller.inv_unborn [] k, by simp⟩, fun k hk => (by cases hk),
      fun slot => ?_, trivial⟩
    exact StackEndpoint.sound_default _
  · intro c t l s' l' hreach hget h hstep
    exact h.step (fun k hk => calls_ne_zero hreach hget hk) hstep
  · intro c t r l m s' l' hreach hget hgetm _ h hm hstep
    exact hm.keeps hstep.keeps (h.process_step hstep) fun k hk => calls_ne_zero hreach hgetm hk

/-- Every endpoint made for the queue of a controller is in the queue, was taken out of it by the
destructor, or is held by a thread, as often as it was made. -/
theorem stock_add_owns (hc : endpointSystem.Reachable c) (k e : ℕ) :
    (c.shared.controllers k).stock e + (c.threads.map (·.owns k e)).sum =
      (c.shared.controllers k).pooled.count e := by
  refine hc.conserved (fun s => (s.controllers k).stock e)
    (fun s => (s.controllers k).pooled.count e) (·.owns k e) ?_ ?_
  · rintro c ⟨hshared, hthreads⟩
    have hzero : (c.threads.map (·.owns k e)).sum = 0 := by
      refine List.sum_eq_zero fun x hx => ?_
      obtain ⟨l, hl, rfl⟩ := List.mem_map.mp hx
      rw [hthreads l hl]
      rfl
    rw [hzero, hshared]
    rfl
  · intro c t l s' l' hreach hget _ hstep
    exact (ThreadState.Inv.reachable hreach t l hget).stock hstep k e

/-- What holds of the controllers of every reachable configuration. -/
theorem Process.Inv.reachable (hc : endpointSystem.Reachable c) : c.shared.Inv := by
  refine hc.invariant (I := fun c => c.shared.Inv) ?_ ?_
  · rintro c ⟨hshared, -⟩
    rw [hshared]
    exact ⟨fun k => Controller.inv_unborn [] k, by simp⟩
  · rintro c _ hreach - ⟨t, hget, hstep⟩
    exact (ThreadState.Inv.reachable hreach _ _ hget).process_step hstep

/-- An endpoint of a live controller is in the queue once and held by no thread, or not in the
queue and held by exactly one thread, once. -/
theorem inQueue_or_held (hc : endpointSystem.Reachable c) {k e : ℕ}
    (hlive : (c.shared.controllers k).phase ≠ .destroyed)
    (he : e ∈ (c.shared.controllers k).pooled) :
    ((c.shared.controllers k).txEndpoints.countP (·.ep = some e) = 1 ∧
        ∀ (t : ℕ) (l : ThreadState), c.threads[t]? = some l → l.owns k e = 0) ∨
      ((∀ w ∈ (c.shared.controllers k).txEndpoints, w.ep ≠ some e) ∧
        ∃ (t : ℕ) (l : ThreadState), c.threads[t]? = some l ∧ l.pc ≠ .exited ∧
          l.owns k e = 1 ∧ ∀ (t' : ℕ) (l' : ThreadState), c.threads[t']? = some l' →
            t' ≠ t → l'.owns k e = 0) := by
  have hk := (Process.Inv.reachable hc).controllers k
  have hone : (c.shared.controllers k).pooled.count e = 1 :=
    List.count_eq_one_of_mem hk.nodup he
  have hsum := stock_add_owns hc k e
  rw [Controller.stock, hk.consumed hlive, hone, List.countP_nil, Nat.add_zero] at hsum
  rcases Nat.eq_zero_or_pos ((c.shared.controllers k).txEndpoints.countP (·.ep = some e)) with
    hzero | hpos
  · right
    rw [hzero, Nat.zero_add] at hsum
    obtain ⟨t, l, hget, hl, hothers⟩ := ThreadSystem.exists_of_sum_map_eq_one _ hsum
    refine ⟨fun w hw => by simpa using List.countP_eq_zero.mp hzero w hw, t, l, hget, ?_, hl,
      hothers⟩
    -- a thread that has exited has empty slots
    intro hexited
    have hpc := (ThreadState.Inv.reachable hc t l hget).pc
    rw [hexited] at hpc
    simp [ThreadState.owns, EndpointPc.owns, hexited, slotsOwn, hpc _, StackEndpoint.owns,
      StackEndpoint.default] at hl
  · left
    refine ⟨by omega, fun t l hget => ?_⟩
    have hle : l.owns k e ≤ (c.threads.map (·.owns k e)).sum := ThreadSystem.le_sum_map _ hget
    omega

/-- What a slot holds it keeps until the thread exits. -/
theorem EndpointStep.slot_eq {t : ℕ} {s s' : Process} {l l' : ThreadState} (h : l.Inv s)
    (hstep : EndpointStep t s l s' l') {slot : Slot}
    (hslot : (l.slots slot).endpoint.ep ≠ none) :
    l'.slots slot = l.slots slot ∨ ∃ rest, l'.pc = .exiting rest := by
  have hinv := h.pc
  cases hstep with
  | @assign k dir slot' temp hpc =>
    rw [hpc] at hinv
    -- only an empty slot is assigned to
    have hne : slot ≠ slot' := fun he => hslot (he ▸ hinv.2.1)
    exact .inl (by simp [ThreadState.assignSlot, hne])
  | destroySlot hpc => exact .inr ⟨_, rfl⟩
  | _ => exact .inl rfl

/-- A thread at its destructors makes no more calls. -/
theorem EndpointStep.exiting {t : ℕ} {s s' : Process} {l l' : ThreadState}
    (hstep : EndpointStep t s l s' l')
    (hpc : (∃ rest, l.pc = .exiting rest) ∨ l.pc = .exited) :
    (∃ rest, l'.pc = .exiting rest) ∨ l'.pc = .exited := by
  cases hstep with
  | destroySlot => exact .inl ⟨_, rfl⟩
  | exited => exact .inr rfl
  | construct k hidle | initializeAs k type contexts dummyCq hidle | destroy k hidle
  | call k dir hidle | exit order hidle =>
    rcases hpc with ⟨rest, hpc⟩ | hpc <;> rw [hidle] at hpc <;> cases hpc
  | test hcall | create hcall | push hcall | pop hcall | popFail hcall
  | assign hcall | destroyTemp hcall | ret hcall | threw hcall =>
    rcases hpc with ⟨rest, hpc⟩ | hpc <;> rw [hcall] at hpc <;> cases hpc

/-- Throughout a run a thread keeps what a slot holds, until it exits. -/
theorem slot_eq_of_run {c' : Config Process ThreadState} (hc : endpointSystem.Reachable c)
    (hrun : Relation.ReflTransGen endpointSystem.Step c c') {t : ℕ} {l : ThreadState}
    (hget : c.threads[t]? = some l) {slot : Slot} (hslot : (l.slots slot).endpoint.ep ≠ none) :
    endpointSystem.Reachable c' ∧ ∀ l', c'.threads[t]? = some l' →
      l'.slots slot = l.slots slot ∨ (∃ rest, l'.pc = .exiting rest) ∨ l'.pc = .exited := by
  induction hrun with
  | refl =>
    refine ⟨hc, fun l' hl' => ?_⟩
    obtain rfl : l = l' := Option.some.inj (hget.symm.trans hl')
    exact .inl rfl
  | tail _ hstep ih =>
    obtain ⟨hreach, ih⟩ := ih
    refine ⟨.step hreach hstep, fun l' hl' => ?_⟩
    obtain ⟨i, hi, hstep⟩ := hstep
    rcases ThreadSystem.getElem?_set_cases hl' with ⟨rfl, rfl⟩ | ⟨-, hold⟩
    · rcases ih _ hi with heq | hexit
      · have hslot' := hslot
        rw [← heq] at hslot'
        rcases hstep.slot_eq (ThreadState.Inv.reachable hreach _ _ hi) hslot' with heq' | hexit
        · exact .inl (heq'.trans heq)
        · exact .inr (.inl hexit)
      · exact .inr (hstep.exiting hexit)
    · -- another thread took the step
      exact ih _ hold

/-- A call fails only when the pop finds the queue empty. -/
theorem EndpointStep.txEndpoints_eq_nil {t k : ℕ} {s s' : Process} {l l' : ThreadState}
    (hstep : EndpointStep t s l s' l') (hthrew : l'.pc = .threw k .tx) :
    (s.controllers k).txEndpoints = [] := by
  cases hstep with
  | popFail hpc hqueue =>
    obtain ⟨rfl, rfl⟩ := EndpointPc.threw.inj hthrew
    exact hqueue
  | @test j dir hpc =>
    have hthrew' : l.testSlot j dir ((s.controllers j).getEndpoint dir) = .threw k .tx := hthrew
    rcases l.testSlot_cases j dir ((s.controllers j).getEndpoint dir) with
      ⟨slot, -, -, htest⟩ | ⟨slot, -, -, htest⟩ | ⟨w, -, htest⟩ <;> rw [htest] at hthrew' <;>
        cases hthrew'
  | construct k hidle | initializeAs k type contexts dummyCq hidle | destroy k hidle =>
    rw [hidle] at hthrew
    cases hthrew
  | call | create | push | pop | assign | destroyTemp | ret | threw | exit | destroySlot
  | exited => cases hthrew

/-- **Exclusive use of an endpoint pool.** For a live controller `k`, scalable with any number of
contexts or not, in every reachable configuration of any number of threads:

* each of its transmit endpoints is in the queue once and with no thread, or not in the queue and
  held once, by one live thread;
* a thread whose slot is filled gets the endpoint in the slot, from now on until it exits;
* a call that fails does so while live threads hold all of its endpoints. -/
theorem scalablePool_exclusive (hc : endpointSystem.Reachable c) (k : ℕ)
    (hphase : (c.shared.controllers k).phase = .initialised) :
    (∀ e ∈ (c.shared.controllers k).pooled,
      ((c.shared.controllers k).txEndpoints.countP (·.ep = some e) = 1 ∧
          ∀ (t : ℕ) (l : ThreadState), c.threads[t]? = some l → l.owns k e = 0) ∨
        ((∀ w ∈ (c.shared.controllers k).txEndpoints, w.ep ≠ some e) ∧
          ∃ (t : ℕ) (l : ThreadState), c.threads[t]? = some l ∧ l.pc ≠ .exited ∧
            l.owns k e = 1 ∧ ∀ (t' : ℕ) (l' : ThreadState), c.threads[t']? = some l' →
              t' ≠ t → l'.owns k e = 0)) ∧
    (∀ (c' : Config Process ThreadState) (t : ℕ) (l l' : ThreadState) (w : EndpointWrapper),
      Relation.ReflTransGen endpointSystem.Step c c' → c.threads[t]? = some l →
      c'.threads[t]? = some l' → (l.slots .tlStx).endpoint.ep ≠ none →
      (c'.shared.controllers k).getTxEndpoint = .scalable .tlStx → l'.pc = .ret k .tx w →
      w = (l.slots .tlStx).endpoint) ∧
    (∀ (t : ℕ) (l l' : ThreadState) (s' : Process), c.threads[t]? = some l →
      EndpointStep t c.shared l s' l' → l'.pc = .threw k .tx →
      ∀ e ∈ (c.shared.controllers k).pooled,
        ∃ (t' : ℕ) (l'' : ThreadState), c.threads[t']? = some l'' ∧ l''.pc ≠ .exited ∧
          l''.owns k e = 1) := by
  have hlive : (c.shared.controllers k).phase ≠ .destroyed := by
    rw [hphase]
    decide
  refine ⟨fun e he => inQueue_or_held hc hlive he, ?_, ?_⟩
  · intro c' t l l' w hrun hget hget' hslot htype' hret
    obtain ⟨hc', heq⟩ := slot_eq_of_run hc hrun hget hslot
    have hpc := (ThreadState.Inv.reachable hc' t l' hget').pc
    rw [hret] at hpc
    -- a scalable controller returns the content of the slot
    have hw : (Route.scalable .tlStx).Returns l'.slots w := htype' ▸ hpc
    rcases heq l' hget' with hsame | ⟨rest, hexit⟩ | hexit
    · rw [hw.1, hsame]
    · rw [hret] at hexit
      cases hexit
    · rw [hret] at hexit
      cases hexit
  · intro t l l' s' hget hstep hthrew e he
    have hempty : (c.shared.controllers k).txEndpoints = [] := hstep.txEndpoints_eq_nil hthrew
    rcases inQueue_or_held hc hlive he with ⟨hcount, -⟩ | ⟨-, t', l'', hget', hexit, hown, -⟩
    · -- the queue is empty, so it does not hold the endpoint
      rw [hempty] at hcount
      simp at hcount
    · exact ⟨t', l'', hget', hexit, hown⟩

end Runs

/-- A run with one context and two threads: thread 0 is given the endpoint, thread 1 finds the
queue empty. -/
theorem scalablePool_exclusive_two_threads :
    ∃ (c : Config Process ThreadState) (l₀ l₁ : ThreadState) (w : EndpointWrapper),
      endpointSystem.Reachable c ∧ (c.shared.controllers 0).pooled = [4] ∧
      c.threads[0]? = some l₀ ∧ l₀.pc = .ret 0 .tx w ∧ w = (l₀.slots .tlStx).endpoint ∧
      w.ep = some 4 ∧ c.threads[1]? = some l₁ ∧ l₁.pc = .pop 0 .tx .tlStx ∧
      (∀ w ∈ (c.shared.controllers 0).txEndpoints, w.ep ≠ some 4) ∧
      ∃ (t' : ℕ) (l'' : ThreadState), c.threads[t']? = some l'' ∧ l''.pc ≠ .exited ∧
        l''.owns 0 4 = 1 := by
  have h0 : endpointSystem.Reachable ⟨⟨fun _ => .unborn, [], []⟩, [.start, .start]⟩ :=
    .start ⟨rfl, by simp⟩
  have h1 := h0.next 0 rfl (.construct 0 rfl rfl)
  have h2 := h1.next 0 rfl (.initializeAs 0 .scalableTx 1 false rfl (.inl rfl) rfl (by decide))
  have h3 := h2.next 0 rfl (.call 0 .tx rfl rfl)
  have h4 := h3.next 0 rfl (.test rfl)
  have h5 := h4.next 0 rfl (.pop rfl rfl)
  have h6 := h5.next 0 rfl (.assign rfl)
  have h7 := h6.next 0 rfl (.destroyTemp rfl)
  have h8 := h7.next 1 rfl (.call 0 .tx rfl rfl)
  have h9 := h8.next 1 rfl (.test rfl)
  have hpool := scalablePool_exclusive h9 0 rfl
  refine ⟨_, _, _, _, h9, rfl, rfl, rfl, ?_, rfl, rfl, rfl, ?_, ?_⟩
  · exact hpool.2.1 _ 0 _ _ _ .refl rfl rfl (by decide) rfl rfl
  · decide
  · exact hpool.2.2 1 _ _ _ rfl (.popFail rfl rfl) rfl 4 (by decide)

end LibFatbat
