import LibFatbat.Endpoint.Handles

/-!
# The destructor of a controller

`~controller_base` as a list of handles to close: what it closes when it returns, and when it
returns.

Main results:

* `destructor_ok` — a destructor that returns had endpoints to clean up, and closed nothing but what
  the members of the controller hold.
* `destructor_of_ordered` — the destructor closes what the members of the controller hold, in the
  order of `closingOrder`, if no handle on that list is in use when its turn comes.
-/

namespace LibFatbat

/-- The handles that the destructor closes, in its order. -/
def ControllerHandles.closingOrder (c : ControllerHandles) : List Fid :=
  c.txEndpoints.flatMap FidWrapper.handles ++ c.rxEndpoints.flatMap FidWrapper.handles ++
    (c.eps.toList.flatMap fun eps => eps.1.handles ++ eps.2.handles) ++
    c.txCntr.toList ++ c.av.toList ++ c.domain.toList ++ c.fabric.toList

/-- Every handle is closed after those that use it. -/
def ClosedInOrder (uses : List (Fid × Fid)) (closed : List Fid) : Prop :=
  ∀ d h, (d, h) ∈ uses → ∀ pre post, closed = pre ++ h :: post → d ∈ pre

/-- The state after more handles are closed. -/
def Fabric.close (f : Fabric) (hs : List Fid) : Fabric := { f with closed := f.closed ++ hs }

@[simp]
theorem Fabric.close_nil (f : Fabric) : f.close [] = f := by
  simp [close]

@[simp]
theorem Fabric.close_close (f : Fabric) (hs hs' : List Fid) :
    (f.close hs).close hs' = f.close (hs ++ hs') := by
  simp [close]

/-- Closing handles one after the other is closing the first ones and then the others. -/
theorem closeAll_append (hs hs' : List Fid) (f : Fabric) :
    closeAll (hs ++ hs') f = (closeAll hs >>= fun _ => closeAll hs') f := by
  induction hs generalizing f with
  | nil => rfl
  | cons h hs ih =>
    show EStateM.bind (fidclose h) _ f = EStateM.bind (EStateM.bind (fidclose h) _) _ f
    unfold EStateM.bind
    cases fidclose h f with
    | ok a g => exact ih g
    | error e g => rfl

/-- Consuming a queue closes the handles of its endpoints. -/
theorem consumeAll_eq (queue : List FidWrapper) (f : Fabric) :
    consumeAll queue f = closeAll (queue.flatMap FidWrapper.handles) f := by
  induction queue generalizing f with
  | nil => rfl
  | cons w queue ih =>
    rw [List.flatMap_cons, closeAll_append]
    show EStateM.bind w.cleanup _ f = EStateM.bind (closeAll w.handles) _ f
    unfold FidWrapper.cleanup EStateM.bind
    cases closeAll w.handles f with
    | ok a g => exact ih g
    | error e g => rfl

/-- A call of `fidclose` that returns has closed the handle. -/
theorem fidclose_ok {h : Fid} {f f' : Fabric} (hok : fidclose h f = .ok () f') :
    f' = f.close [h] := by
  unfold fidclose at hok
  split at hok
  · exact absurd hok (by simp)
  · exact (EStateM.Result.ok.inj hok).2.symm

/-- Handles are closed one after the other. -/
theorem closeAll_ok {hs : List Fid} {f f' : Fabric} (hok : closeAll hs f = .ok () f') :
    f' = f.close hs := by
  induction hs generalizing f with
  | nil => simpa [Program.pure_ok] using (Program.pure_ok.mp hok).2.symm
  | cons h hs ih =>
    obtain ⟨_, g, hhead, htail⟩ := Program.bind_ok.mp hok
    obtain rfl := fidclose_ok hhead
    rw [ih htail, Fabric.close_close, List.singleton_append]

/-- A handle that no open one uses is closed. -/
theorem fidclose_of_not_inUse {h : Fid} {f : Fabric} (hfree : f.inUse h = false) :
    fidclose h f = .ok () (f.close [h]) := by
  unfold fidclose
  rw [hfree, Bool.and_false]
  rfl

/-- Handles that are closed in order are never in use when their turn comes. -/
theorem closeAll_of_ordered {hs rest : List Fid} {f : Fabric}
    (hordered : ClosedInOrder f.uses (f.closed ++ (hs ++ rest))) :
    closeAll hs f = .ok () (f.close hs) := by
  induction hs generalizing f with
  | nil => simp [closeAll, pure, EStateM.pure]
  | cons h hs ih =>
    have hfree : f.inUse h = false := by
      refine Bool.eq_false_iff.mpr fun hinUse => ?_
      obtain ⟨⟨d, h'⟩, hmem, hcond⟩ := List.any_eq_true.mp hinUse
      obtain ⟨hh, hd⟩ : h' = h ∧ d ∉ f.closed := by simpa using hcond
      subst hh
      exact hd (hordered d h' hmem f.closed (hs ++ rest) rfl)
    have hrest : closeAll hs (f.close [h]) = .ok () ((f.close [h]).close hs) := by
      refine ih ?_
      simpa [Fabric.close] using hordered
    refine Program.bind_ok.mpr ⟨(), f.close [h], fidclose_of_not_inUse hfree, ?_⟩
    rw [hrest, Fabric.close_close, List.singleton_append]

/-- A pointer whose handle was closed is not null. -/
theorem closePointer_ok {p : Option Fid} {f f' : Fabric} (hok : closePointer p f = .ok () f') :
    p ≠ none ∧ f' = f.close p.toList := by
  cases p with
  | none => exact absurd hok Program.throw_ok.mp
  | some h => exact ⟨by simp, fidclose_ok hok⟩

/-- A destructor that returns had endpoints to close, and closed nothing that the members of the
controller did not hold. -/
theorem destructor_ok {c : ControllerHandles} {f f' : Fabric}
    (hok : c.destructor f = .ok () f') :
    c.eps ≠ none ∧ ∀ h ∈ f'.closed, h ∈ f.closed ∨ h ∈ c.closingOrder := by
  obtain ⟨_, f₁, htx, hok⟩ := Program.bind_ok.mp hok
  obtain ⟨_, f₂, hrx, hok⟩ := Program.bind_ok.mp hok
  -- the two queues of endpoints are emptied first
  rw [consumeAll_eq] at htx hrx
  obtain rfl := closeAll_ok htx
  obtain rfl := closeAll_ok hrx
  -- then the shared endpoints, which have to be there
  obtain ⟨_, f₃, hshared, hok⟩ := Program.bind_ok.mp hok
  cases heps : c.eps with
  | none =>
    rw [heps] at hshared
    exact absurd hshared Program.throw_ok.mp
  | some eps =>
    rw [heps] at hshared
    obtain ⟨_, f₄, hepTx, hepRx⟩ := Program.bind_ok.mp hshared
    obtain rfl := closeAll_ok hepTx
    obtain rfl := closeAll_ok hepRx
    -- then the counter, the address vector, and at last what all of them were opened on
    obtain ⟨_, f₅, hcntr, hok⟩ := Program.bind_ok.mp hok
    obtain rfl := closeAll_ok hcntr
    obtain ⟨_, f₆, hav, hok⟩ := Program.bind_ok.mp hok
    obtain ⟨-, rfl⟩ := closePointer_ok hav
    obtain ⟨_, f₇, hdomain, hfabric⟩ := Program.bind_ok.mp hok
    obtain ⟨-, rfl⟩ := closePointer_ok hdomain
    obtain ⟨-, rfl⟩ := closePointer_ok hfabric
    refine ⟨by simp, fun h hh => ?_⟩
    simp only [Fabric.close, ControllerHandles.closingOrder, heps, Option.toList_some,
      List.flatMap_singleton, List.mem_append] at hh ⊢
    tauto

/-- A destructor closes what the members of the controller hold, if each handle is free when its
turn comes. -/
theorem destructor_of_ordered {c : ControllerHandles} {f : Fabric} {eps : FidWrapper × FidWrapper}
    {a d b : Fid} (heps : c.eps = some eps) (hav : c.av = some a) (hdomain : c.domain = some d)
    (hfabric : c.fabric = some b)
    (hordered : ClosedInOrder f.uses (f.closed ++ c.closingOrder)) :
    c.destructor f = .ok () (f.close c.closingOrder) := by
  -- Each part of the list can be closed, whatever was closed before it.
  have hpart : ∀ pre hs, pre ++ hs <+: c.closingOrder →
      closeAll hs (f.close pre) = .ok () (f.close (pre ++ hs)) := by
    rintro pre hs ⟨rest, hsplit⟩
    have hrest : ClosedInOrder (f.close pre).uses ((f.close pre).closed ++ (hs ++ rest)) := by
      simpa [Fabric.close, ← hsplit] using hordered
    rw [← Fabric.close_close]
    exact closeAll_of_ordered hrest
  have hsingle : ∀ pre h, pre ++ [h] <+: c.closingOrder →
      fidclose h (f.close pre) = .ok () (f.close (pre ++ [h])) := by
    intro pre h hprefix
    obtain ⟨_, g, hclose, hret⟩ := Program.bind_ok.mp (hpart pre [h] hprefix)
    obtain ⟨-, rfl⟩ := Program.pure_ok.mp hret
    exact hclose
  have horder : c.closingOrder = c.txEndpoints.flatMap FidWrapper.handles ++
      c.rxEndpoints.flatMap FidWrapper.handles ++ eps.1.handles ++ eps.2.handles ++
        c.txCntr.toList ++ [a] ++ [d] ++ [b] := by
    simp [ControllerHandles.closingOrder, heps, hav, hdomain, hfabric]
  -- What is closed after each statement of the destructor, last one first.
  have hfabricPrefix := Eq.subst (motive := (· <+: c.closingOrder)) horder List.prefix_rfl
  have hdomainPrefix := (List.prefix_append _ _).trans hfabricPrefix
  have havPrefix := (List.prefix_append _ _).trans hdomainPrefix
  have hcntrPrefix := (List.prefix_append _ _).trans havPrefix
  have hepRxPrefix := (List.prefix_append _ _).trans hcntrPrefix
  have hepTxPrefix := (List.prefix_append _ _).trans hepRxPrefix
  have hrxPrefix := (List.prefix_append _ _).trans hepTxPrefix
  have htxPrefix : [] ++ c.txEndpoints.flatMap FidWrapper.handles <+: c.closingOrder :=
    (List.prefix_append _ _).trans hrxPrefix
  have htx := hpart _ _ htxPrefix
  have hrx := hpart _ _ hrxPrefix
  rw [Fabric.close_nil, List.nil_append, ← consumeAll_eq] at htx
  rw [← consumeAll_eq] at hrx
  have hepTx : eps.1.cleanup _ = .ok () _ := hpart _ _ hepTxPrefix
  have hepRx : eps.2.cleanup _ = .ok () _ := hpart _ _ hepRxPrefix
  have hcntr := hpart _ _ hcntrPrefix
  have hclosedAv : closePointer (some a) _ = .ok () _ := hsingle _ _ havPrefix
  have hclosedDomain : closeDomain (some d) _ = .ok () _ := hsingle _ _ hdomainPrefix
  have hclosedFabric : closePointer (some b) _ = .ok () _ := hsingle _ _ hfabricPrefix
  unfold ControllerHandles.destructor
  rw [heps, hav, hdomain, hfabric, horder]
  refine Program.bind_ok.mpr ⟨(), _, htx, Program.bind_ok.mpr ⟨(), _, hrx, ?_⟩⟩
  refine Program.bind_ok.mpr ⟨(), _, Program.bind_ok.mpr ⟨(), _, hepTx, hepRx⟩, ?_⟩
  refine Program.bind_ok.mpr ⟨(), _, hcntr, Program.bind_ok.mpr ⟨(), _, hclosedAv, ?_⟩⟩
  exact Program.bind_ok.mpr ⟨(), _, hclosedDomain, hclosedFabric⟩

end LibFatbat
