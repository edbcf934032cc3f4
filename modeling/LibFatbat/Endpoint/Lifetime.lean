import LibFatbat.Endpoint.Pool

/-!
# Whether a returned endpoint belongs to the controller asked

`get_tx_endpoint` and `get_rx_endpoint` test a thread-local slot for a null endpoint and otherwise
return what the slot holds. The slots are static and nothing empties them before the thread exits,
so a slot filled through one controller answers the calls on every later one.

`returned_ownsOpen_iff` says exactly when this goes wrong: a call returns an open endpoint of its
own controller if the slot it looks at is empty or was filled through that controller, and an
endpoint of another one otherwise.
-/

open Concurrent

namespace LibFatbat

/-- The endpoint of the wrapper was made by controller `k` and has not been closed. -/
def Process.OwnsOpen (s : Process) (k : ℕ) (w : EndpointWrapper) : Prop :=
  ∃ e, w.ep = some e ∧ s.creator[e]? = some k ∧ e ∉ s.closed

/-- A step that is the test of a slot finds the slot empty or with an endpoint of the controller
called. -/
def SlotIsOwn (_t : ℕ) (s : Process) (l : ThreadState) (_s' : Process) (_l' : ThreadState) :
    Prop :=
  ∀ k dir slot e, l.pc = .test k dir → ((s.controllers k).getEndpoint dir).slot? = some slot →
    (l.slots slot).endpoint.ep = some e → s.creator[e]? = some k

/-- The shared endpoint that an initialised controller returns is there, and its own. -/
theorem Controller.Inv.shared_route {creator : List ℕ} {k : ℕ} {c : Controller}
    (h : c.Inv creator k) (hphase : c.phase = .initialised) {dir : Direction}
    {w : EndpointWrapper} (hroute : c.getEndpoint dir = .shared w) :
    ∃ e, w.ep = some e ∧ creator[e]? = some k := by
  obtain ⟨hrx, htx⟩ := h.shared hphase
  have hmine : w.ep ≠ none ∧ w.MadeBy creator k := by
    -- one of the two members, by direction and type of endpoints
    cases dir with
    | tx =>
      cases htype : c.endpointType with
      | multiple =>
        simp only [getEndpoint, getTxEndpoint, htype, Route.shared.injEq] at hroute
        exact hroute ▸ ⟨htx htype, h.epTx⟩
      | single =>
        simp only [getEndpoint, getTxEndpoint, htype, Route.shared.injEq] at hroute
        exact hroute ▸ ⟨hrx, h.epRx⟩
      | threadlocalTx | scalableTx | scalableTxRx =>
        simp [getEndpoint, getTxEndpoint, htype] at hroute
    | rx =>
      cases htype : c.endpointType with
      | scalableTxRx => simp [getEndpoint, getRxEndpoint, htype] at hroute
      | single | multiple | threadlocalTx | scalableTx =>
        simp only [getEndpoint, getRxEndpoint, htype, Route.shared.injEq] at hroute
        exact hroute ▸ ⟨hrx, h.epRx⟩
  obtain ⟨e, he⟩ := Option.ne_none_iff_exists'.mp hmine.1
  exact ⟨e, he, hmine.2 e (by simp [EndpointWrapper.handles, he])⟩

/-- A call that is about to return has an endpoint of its own controller. -/
def EndpointPc.ReturnsOwn (s : Process) (pc : EndpointPc) : Prop :=
  ∀ k dir w, pc = .ret k dir w → ∃ e, w.ep = some e ∧ s.creator[e]? = some k

section Steps

variable {t : ℕ} {s s' : Process} {l l' : ThreadState}

theorem EndpointPc.ReturnsOwn.keeps {pc : EndpointPc} (h : pc.ReturnsOwn s)
    (hkeeps : s.Keeps s') : pc.ReturnsOwn s' := by
  intro k dir w hpc
  obtain ⟨e, he, hcreator⟩ := h k dir w hpc
  exact ⟨e, he, hkeeps.creator e k hcreator⟩

/-- A step that meets the condition keeps it so. -/
theorem EndpointPc.ReturnsOwn.step (hinv : l.Inv s) (h : l.pc.ReturnsOwn s)
    (hstep : EndpointStep t s l s' l') (hown : SlotIsOwn t s l s' l') : l'.pc.ReturnsOwn s' := by
  have hkeeps := hstep.keeps
  have hpc := hinv.pc
  cases hstep with
  | construct | initializeAs | destroy => exact h.keeps hkeeps
  | @test k dir htest =>
    intro j d w hret
    have hphase := hinv.live k (by rw [htest]; rfl)
    rcases l.testSlot_cases k dir ((s.controllers k).getEndpoint dir) with
      ⟨slot, -, -, hcreate⟩ | ⟨slot, -, -, hpop⟩ | ⟨w', hw', hret'⟩
    · cases hcreate.symm.trans hret
    · cases hpop.symm.trans hret
    · obtain ⟨rfl, rfl, rfl⟩ := EndpointPc.ret.inj (hret'.symm.trans hret)
      -- the slot is the thread's, so here the condition is needed
      cases hroute : (s.controllers k).getEndpoint dir with
      | shared w =>
        rw [hroute] at hw'
        obtain rfl : w' = w := hw'
        exact (hinv.process.controllers k).shared_route hphase hroute
      | threadlocal slot | scalable slot =>
        rw [hroute] at hw'
        obtain ⟨rfl, hep⟩ := hw'
        obtain ⟨e, he⟩ := Option.ne_none_iff_exists'.mp hep
        exact ⟨e, he, hown k dir slot e htest (by rw [hroute]; rfl) he⟩
  | @destroyTemp k dir slot temp hdestroy =>
    rw [hdestroy] at hpc
    obtain ⟨-, hep, hmade, -⟩ := hpc
    obtain ⟨e, he⟩ := Option.ne_none_iff_exists'.mp hep
    intro j d w hret
    obtain ⟨rfl, rfl, rfl⟩ := EndpointPc.ret.inj hret
    refine ⟨e, he, hkeeps.creator e k (hmade e ?_)⟩
    simp [EndpointWrapper.handles, he]
  | call | create | push | pop | popFail | assign | ret | threw | exit | destroySlot
  | exited =>
    intro k dir w hret
    cases hret

/-- A step that does not meet the condition returns an endpoint of another controller. -/
theorem EndpointStep.foreign (hstep : EndpointStep t s l s' l')
    (hown : ¬ SlotIsOwn t s l s' l') :
    ∃ k dir w, l'.pc = .ret k dir w ∧ ¬ s'.OwnsOpen k w := by
  unfold SlotIsOwn at hown
  push Not at hown
  obtain ⟨k, dir, slot, e, htest, hslot, he, hcreator⟩ := hown
  cases hstep with
  | @test j d hpc =>
    obtain ⟨rfl, rfl⟩ := EndpointPc.test.inj (hpc.symm.trans htest)
    rcases l.testSlot_cases j d ((s.controllers j).getEndpoint d) with
      ⟨slot', hroute, hnone, -⟩ | ⟨slot', hroute, hnone, -⟩ | ⟨w, hw, hret⟩
    · rw [hroute] at hslot
      obtain rfl : slot' = slot := Option.some.inj hslot
      rw [hnone] at he
      cases he
    · rw [hroute] at hslot
      obtain rfl : slot' = slot := Option.some.inj hslot
      rw [hnone] at he
      cases he
    · -- the wrapper in the slot is returned, and its endpoint is that of another controller
      refine ⟨j, d, w, hret, ?_⟩
      rintro ⟨e', he', hcreator', -⟩
      have hw' : w = (l.slots slot).endpoint := by
        cases hroute : (s.controllers j).getEndpoint d with
        | shared w' =>
          rw [hroute] at hslot
          cases hslot
        | threadlocal slot' | scalable slot' =>
          rw [hroute] at hslot hw
          obtain rfl : slot' = slot := Option.some.inj hslot
          exact hw.1
      rw [hw', he] at he'
      obtain rfl := Option.some.inj he'
      exact hcreator hcreator'
  -- no other step is one from a test of the slot
  | construct k hidle | initializeAs k type contexts dummyCq hidle | destroy k hidle
  | call k dir hidle | exit order hidle =>
    rw [hidle] at htest
    cases htest
  | create hcall | push hcall | pop hcall | popFail hcall | assign hcall
  | destroyTemp hcall | ret hcall | threw hcall | destroySlot hcall | exited hcall =>
    rw [hcall] at htest
    cases htest

end Steps

/-- In a run whose steps all meet the condition, calls return endpoints of their controllers. -/
theorem returnsOwn_of_reachable {c : Config Process ThreadState}
    (hc : (endpointSystem.restrict SlotIsOwn).Reachable c) (t : ℕ) (l : ThreadState)
    (hget : c.threads[t]? = some l) : l.pc.ReturnsOwn c.shared := by
  refine hc.forall_threads (P := fun _ s l => l.pc.ReturnsOwn s) ?_ ?_ ?_ t l hget
  · rintro c ⟨-, hthreads⟩ t l hget k dir w hret
    rw [hthreads l (List.mem_of_getElem? hget)] at hret
    cases hret
  · rintro c t l s' l' hreach hget h ⟨hstep, hown⟩
    exact h.step (ThreadState.Inv.reachable hreach.of_restrict t l hget) hstep hown
  · rintro c t r l m s' l' - - - - - hm ⟨hstep, -⟩
    exact hm.keeps hstep.keeps

/-- In a run whose steps all meet the condition, calls return open endpoints. -/
theorem ownsOpen_of_reachable {c : Config Process ThreadState}
    (hc : (endpointSystem.restrict SlotIsOwn).Reachable c) {t : ℕ} {l : ThreadState}
    (hget : c.threads[t]? = some l) {k : ℕ} {dir : Direction} {w : EndpointWrapper}
    (hret : l.pc = .ret k dir w) : c.shared.OwnsOpen k w := by
  obtain ⟨e, he, hcreator⟩ := returnsOwn_of_reachable hc t l hget k dir w hret
  refine ⟨e, he, hcreator, fun hclosed => ?_⟩
  have hinv := ThreadState.Inv.reachable hc.of_restrict t l hget
  -- only a controller that is gone has closed endpoints, and this one is in use
  obtain ⟨j, hj, hdestroyed⟩ := hinv.process.closed e hclosed
  obtain rfl : k = j := Option.some.inj (hcreator.symm.trans hj)
  have hlive := hinv.live k (by rw [hret]; rfl)
  rw [hlive] at hdestroyed
  cases hdestroyed

/-- **Endpoints belong to their controller, exactly when the slots do.** In a run in which every
test of a slot so far found it empty or filled through the controller called, every call returns
an open endpoint of its own controller, and any next step keeps it so if and only if it meets the
condition, too. -/
theorem returned_ownsOpen_iff {c : Config Process ThreadState}
    (hc : (endpointSystem.restrict SlotIsOwn).Reachable c) :
    (∀ (t : ℕ) (l : ThreadState) (k : ℕ) (dir : Direction) (w : EndpointWrapper),
      c.threads[t]? = some l → l.pc = .ret k dir w → c.shared.OwnsOpen k w) ∧
    (∀ (t : ℕ) (l l' : ThreadState) (s' : Process), c.threads[t]? = some l →
      EndpointStep t c.shared l s' l' →
        ((∀ (k : ℕ) (dir : Direction) (w : EndpointWrapper), l'.pc = .ret k dir w →
          s'.OwnsOpen k w) ↔ SlotIsOwn t c.shared l s' l')) := by
  refine ⟨fun t l k dir w hget hret => ownsOpen_of_reachable hc hget hret, ?_⟩
  intro t l l' s' hget hstep
  constructor
  · intro hret
    by_contra hown
    obtain ⟨k, dir, w, hpc, hforeign⟩ := hstep.foreign hown
    exact hforeign (hret k dir w hpc)
  · intro hown k dir w hpc
    have hnext := hc.next t hget ⟨hstep, hown⟩
    obtain ⟨hlt, -⟩ := List.getElem?_eq_some_iff.mp hget
    exact ownsOpen_of_reachable hnext (List.getElem?_set_self hlt) hpc

theorem slotIsOwn_of_ne {t : ℕ} {s s' : Process} {l l' : ThreadState}
    (h : ∀ k dir, l.pc ≠ .test k dir) : SlotIsOwn t s l s' l' :=
  fun k dir _ _ hpc => absurd hpc (h k dir)

/-- A run that meets the condition: the second call of a thread finds the slot filled through the
same controller. -/
theorem returned_ownsOpen_iff_second_call :
    ∃ (c : Config Process ThreadState) (l : ThreadState) (w : EndpointWrapper),
      (endpointSystem.restrict SlotIsOwn).Reachable c ∧ c.threads[0]? = some l ∧
        l.pc = .ret 0 .tx w ∧ w.ep = some 6 ∧ c.shared.OwnsOpen 0 w := by
  have h0 : (endpointSystem.restrict SlotIsOwn).Reachable
      ⟨⟨fun _ => .unborn, [], []⟩, [.start]⟩ := .start ⟨rfl, by simp⟩
  have h1 := h0.next 0 rfl ⟨.construct 0 rfl rfl, slotIsOwn_of_ne nofun⟩
  have h2 := h1.next 0 rfl
    ⟨.initializeAs 0 .threadlocalTx 0 true rfl (.inl rfl) rfl (by decide), slotIsOwn_of_ne nofun⟩
  have h3 := h2.next 0 rfl ⟨.call 0 .tx rfl rfl, slotIsOwn_of_ne nofun⟩
  have h4 := h3.next 0 rfl ⟨.test rfl, by
    -- the slot is empty
    rintro k dir slot e hpc hslot he
    cases hpc
    cases hslot
    cases he⟩
  have h5 := h4.next 0 rfl ⟨.create rfl, slotIsOwn_of_ne nofun⟩
  have h6 := h5.next 0 rfl ⟨.push rfl, slotIsOwn_of_ne nofun⟩
  have h7 := h6.next 0 rfl ⟨.assign rfl, slotIsOwn_of_ne nofun⟩
  have h8 := h7.next 0 rfl ⟨.destroyTemp rfl, slotIsOwn_of_ne nofun⟩
  have h9 := h8.next 0 rfl ⟨.ret rfl, slotIsOwn_of_ne nofun⟩
  have h10 := h9.next 0 rfl ⟨.call 0 .tx rfl rfl, slotIsOwn_of_ne nofun⟩
  have h11 := h10.next 0 rfl ⟨.test rfl, by
    -- the slot holds an endpoint of the same controller
    rintro k dir slot e hpc hslot he
    cases hpc
    cases hslot
    cases he
    rfl⟩
  exact ⟨_, _, _, h11, rfl, rfl, rfl, (returned_ownsOpen_iff h11).1 0 _ 0 .tx _ rfl rfl⟩

/-- A thread gets an endpoint of a `threadlocalTx` controller, the controller is destroyed, and a
second one returns the same closed endpoint to the thread. -/
theorem not_forall_returned_ownsOpen :
    ¬ ∀ (c : Config Process ThreadState) (t : ℕ) (l : ThreadState) (k : ℕ) (dir : Direction)
      (w : EndpointWrapper), endpointSystem.Reachable c → c.threads[t]? = some l →
        l.pc = .ret k dir w → c.shared.OwnsOpen k w := by
  intro hall
  have h0 : endpointSystem.Reachable ⟨⟨fun _ => .unborn, [], []⟩, [.start]⟩ :=
    .start ⟨rfl, by simp⟩
  have h1 := h0.next 0 rfl (.construct 0 rfl rfl)
  have h2 := h1.next 0 rfl (.initializeAs 0 .threadlocalTx 0 true rfl (.inl rfl) rfl (by decide))
  have h3 := h2.next 0 rfl (.call 0 .tx rfl rfl)
  have h4 := h3.next 0 rfl (.test rfl)
  have h5 := h4.next 0 rfl (.create rfl)
  have h6 := h5.next 0 rfl (.push rfl)
  have h7 := h6.next 0 rfl (.assign rfl)
  have h8 := h7.next 0 rfl (.destroyTemp rfl)
  have h9 := h8.next 0 rfl (.ret rfl)
  -- the slot outlives the controller that made its endpoint
  have h10 := h9.next 0 rfl (.destroy 0 rfl rfl rfl)
  have h11 := h10.next 0 rfl (.construct 1 rfl rfl)
  have h12 := h11.next 0 rfl
    (.initializeAs 1 .threadlocalTx 0 true rfl (.inl rfl) rfl (by decide))
  have h13 := h12.next 0 rfl (.call 1 .tx rfl rfl)
  have h14 := h13.next 0 rfl (.test rfl)
  obtain ⟨e, he, hcreator, -⟩ := hall _ 0 _ 1 .tx _ h14 rfl rfl
  obtain rfl : 6 = e := Option.some.inj he
  cases hcreator

end LibFatbat
