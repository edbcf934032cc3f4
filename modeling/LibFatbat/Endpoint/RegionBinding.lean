import LibFatbat.Endpoint.Usable

/-!
# The endpoint that memory is bound to

With `FI_MR_ENDPOINT` a region can be accessed from remote only through the endpoint it is bound to.
Peers know the address in `here_`. `make_region` with a controller binds what `get_tx_endpoint`
returns, `memory_context::make_region` what `get_rx_endpoint` returns.

Main result: `boundEndpoints_iff`. Both bind the endpoint that peers know if and only if the
endpoint type is `single`.
-/

open Concurrent

namespace LibFatbat

variable {cfg : InitSetup} {reg : RegistrationSetup Fid} {s : Bringup} {l : GetterThread}
  {c : Config Bringup GetterThread}

/-- Each of the functions binds the endpoint that its getter returned. -/
theorem RegistrationSetup.Registers.endpoint {r : RegionRequest} {w : FidWrapper}
    {calls : List (MrCall Fid)} {dir : Direction} (h : reg.Registers r w calls dir) :
    calls.filterMap MrCall.endpoint? = [w.ep] := by
  cases dir with
  | tx =>
    obtain ⟨region, hrun⟩ := h
    obtain ⟨mr, -, rfl⟩ := makeRegion_ok hrun
    exact filterMap_endpoint _ w.ep mr
  | rx =>
    obtain ⟨segment, hrun⟩ := h
    obtain ⟨mr, -, rfl⟩ := memorySegment_ok hrun
    exact filterMap_endpoint _ w.ep mr

/-- The transmit endpoint is the receive endpoint if and only if the endpoint type is `single`. -/
theorem InitSetup.Provides.ep_eq_iff {w : FidWrapper} (h : cfg.Provides s w .tx) :
    w.ep = cfg.epRx.ep ↔ cfg.endpointType = .single := by
  unfold InitSetup.Provides at h
  cases hcfg : cfg.endpointType with
  | single =>
    simp only [hcfg] at h
    simp [h]
  | multiple =>
    simp only [hcfg] at h
    simp [h, InitSetup.epTx, InitSetup.epRx, hcfg]
  | threadlocalTx =>
    simp only [hcfg] at h
    obtain ⟨n, rfl, -⟩ := h
    simp [FidWrapper.threadlocal, InitSetup.epRx]
  | scalableTx | scalableTxRx =>
    simp only [hcfg] at h
    obtain ⟨i, -, rfl⟩ := h
    simp [FidWrapper.context, InitSetup.epRx]

/-- Whichever threads call the two functions, and whatever they register: each binds one endpoint,
and these are one and the same, namely the one whose address is published, if and only if the
endpoint type is `single`. -/
theorem boundEndpoints_iff (hc : (getterSystem cfg reg).Reachable c) {l₁ l₂ : GetterThread}
    (hl₁ : l₁ ∈ c.threads) (hl₂ : l₂ ∈ c.threads) {calls₁ calls₂ : List (MrCall Fid)}
    (hregion₁ : (.tx, calls₁) ∈ l₁.regions) (hregion₂ : (.rx, calls₂) ∈ l₂.regions) :
    ∃ e₁ e₂, calls₁.filterMap MrCall.endpoint? = [e₁] ∧
      calls₂.filterMap MrCall.endpoint? = [e₂] ∧
        (e₁ = e₂ ∧ e₂ = c.shared.here ↔ cfg.endpointType = .single) := by
  obtain ⟨i, hi⟩ := List.getElem?_of_mem hl₁
  obtain ⟨j, hj⟩ := List.getElem?_of_mem hl₂
  obtain ⟨-, hs, hthreads⟩ := getterSystem_inv hc
  have hinv₁ := hthreads i l₁ hi
  have hinv₂ := hthreads j l₂ hj
  obtain ⟨w₁, r₁, hgot₁, hreg₁⟩ := hinv₁.regions _ _ hregion₁
  obtain ⟨w₂, r₂, hgot₂, hreg₂⟩ := hinv₂.regions _ _ hregion₂
  have htx : cfg.Provides c.shared w₁ .tx := hinv₁.provided _ _ hgot₁
  have hrx : w₂ = cfg.epRx := hinv₂.provided _ _ hgot₂
  refine ⟨w₁.ep, w₂.ep, hreg₁.endpoint, hreg₂.endpoint, ?_⟩
  have hhere : cfg.epRx.ep = c.shared.here := hs.here.symm
  rw [hrx, htx.ep_eq_iff]
  exact and_iff_left hhere

/-- A thread registers memory on an endpoint that all threads share. -/
theorem alone_region {i : ℕ} {dir : Direction} {w : FidWrapper} {r : RegionRequest}
    {calls : List (MrCall Fid)} (hpc : l.pc = .idle)
    (hsource : s.controller.getEndpoint dir = some (.shared w))
    (hrun : reg.Registers r w calls dir) :
    (getterSystem cfg reg).Alone i (s, l)
      (s, { l.got dir w .idle with regions := (dir, calls) :: l.regions }) := by
  have hcall : (getterSystem cfg reg).Alone i (s, l)
      (s, { l with pc := .test dir (.region r) }) :=
    (ThreadSystem.Alone.refl i _).step (.region dir r hpc)
  have htest : (getterSystem cfg reg).Alone i (s, l)
      (s, { l with pc := .ret dir (.region r) w }) :=
    hcall.step (.test rfl hsource)
  exact htest.step (.retRegion rfl hrun)

/-- A buffer of a page. -/
def RegionRequest.page : RegionRequest := ⟨0x7000#64, 0x1000#64, -2, 0#64⟩

/-- The calls of libfabric for it. -/
def RegionRequest.pageCalls (w : FidWrapper) : List (MrCall Fid) :=
  .regattr
      ((RegistrationSetup.willing Fid).mrAttr (-2) 0x7000#64 0x1000#64 accessFlags 0#64 0#64) ::
    RegistrationSetup.bindCalls true w.ep ⟨0x7000#64, 0x1000#64, 0#64⟩

/-- A run in which one thread registers memory with both functions. -/
theorem reachable_regions {w₁ w₂ : FidWrapper} (htype : cfg.endpointType ≠ .scalableTxRx)
    (hcontexts : 1 ≤ cfg.contexts)
    (htx : (cfg.initialized false).controller.getEndpoint .tx = some (.shared w₁))
    (hrx : (cfg.initialized false).controller.getEndpoint .rx = some (.shared w₂)) :
    ∃ l, (getterSystem cfg (.willing Fid)).Reachable ⟨cfg.initialized false, [l]⟩ ∧
      (.tx, RegionRequest.pageCalls w₁) ∈ l.regions ∧
        (.rx, RegionRequest.pageCalls w₂) ∈ l.regions := by
  have hstart : (getterSystem cfg (.willing Fid)).Reachable ⟨cfg.initialized false, [.start]⟩ := by
    refine .start ⟨⟨false, initializeController_eq htype false⟩, ?_, hcontexts⟩
    intro l hl
    exact List.mem_singleton.mp hl
  have hfirst : (RegistrationSetup.willing Fid).Registers .page w₁ (RegionRequest.pageCalls w₁)
      .tx := ⟨_, rfl⟩
  have hsecond : (RegistrationSetup.willing Fid).Registers .page w₂ (RegionRequest.pageCalls w₂)
      .rx := ⟨_, rfl⟩
  have hrun₁ := @alone_region cfg _ _ .start 0 _ _ _ _ rfl htx hfirst
  have hrun₂ := hrun₁.trans (alone_region rfl hrx hsecond)
  exact ⟨_, hstart.alone rfl hrun₂, by simp, by simp⟩

/-- With one endpoint for both directions, both functions bind the one that peers know. -/
theorem boundEndpoints_single :
    ∃ c l calls₁ calls₂ e,
      (getterSystem ⟨.single, 1, false, false⟩ (.willing Fid)).Reachable c ∧ l ∈ c.threads ∧
        (.tx, calls₁) ∈ l.regions ∧ (.rx, calls₂) ∈ l.regions ∧
          calls₁.filterMap MrCall.endpoint? = [e] ∧ calls₂.filterMap MrCall.endpoint? = [e] ∧
            e = c.shared.here := by
  obtain ⟨l, hc, htx, hrx⟩ := @reachable_regions ⟨.single, 1, false, false⟩ _ _ (by decide)
    (by decide) rfl rfl
  obtain ⟨e₁, e₂, he₁, he₂, hiff⟩ := boundEndpoints_iff hc (List.mem_singleton_self l)
    (List.mem_singleton_self l) htx hrx
  obtain ⟨rfl, hhere⟩ := hiff.mpr rfl
  exact ⟨_, l, _, _, e₁, hc, List.mem_singleton_self l, htx, hrx, he₁, he₂, hhere⟩

/-- With a separate transmit endpoint, `make_region` with a controller binds the one that peers do
not know. -/
theorem boundEndpoints_multiple :
    ∃ c l calls₁ calls₂,
      (getterSystem ⟨.multiple, 1, false, false⟩ (.willing Fid)).Reachable c ∧ l ∈ c.threads ∧
        (.tx, calls₁) ∈ l.regions ∧ (.rx, calls₂) ∈ l.regions ∧
          calls₁.filterMap MrCall.endpoint? = [some .txEp] ∧
            calls₂.filterMap MrCall.endpoint? = [some .rxEp] ∧ c.shared.here = some .rxEp := by
  obtain ⟨l, hc, htx, hrx⟩ := @reachable_regions ⟨.multiple, 1, false, false⟩ _ _ (by decide)
    (by decide) rfl rfl
  exact ⟨_, l, _, _, hc, List.mem_singleton_self l, htx, hrx, rfl, rfl, rfl⟩

end LibFatbat
