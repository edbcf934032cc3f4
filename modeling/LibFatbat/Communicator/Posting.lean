import LibFatbat.Communicator.Refinement
import LibFatbat.Communicator.Tags

/-!
# Posting functions

What a call of a posting function has done when it returns, whatever the provider answered and
whatever was called meanwhile, by other threads or from callbacks inside the polling of this very
call: the provider has accepted one request of it, with the call's own arguments and context, and
its posted counter was incremented once (`posted_once`). `write_data_delivery` may go through both
of its loops; since its flag is never set again, it leaves the first one having posted or posts in
the second one.
-/

open Concurrent

namespace LibFatbat

variable {cfg : Setup} {i : ℕ} {s s' : Shared} {f : Frame} {fs : List Frame}
  {c : Config Shared (List Frame)}

/-- The request that a call is for, field by field. -/
structure Call.OwnRequest (cfg : Setup) (s : Core) (x : Call) (request : FiRequest) : Prop where
  /-- `write_data_delivery` posts with one function or the other. -/
  fn : match x.func with
    | .send => request.fn = if x.inject cfg then .tinject else .tsend
    | .recv => request.fn = .trecv
    | .read => request.fn = .read
    | .write => request.fn = .write
    | .writeData => request.fn = .writedata
    | .writeDataDelivery => request.fn = .writemsg ∨ request.fn = .writedata
  buffer : request.buffer = x.buffer
  size : request.size = x.size
  addr : request.addr = x.peer
  /-- Messages carry the lowest 24 bits of their tag. -/
  tag : request.tag =
    if x.func = .send ∨ x.func = .recv then some (BitVec.ofNat 64 (x.tag.toNat % 2 ^ 24)) else none
  remote : request.remote =
    if x.func = .send ∨ x.func = .recv then none else some (x.remoteAddr, x.remoteKey)
  data : request.data =
    if x.func = .writeData ∨ x.func = .writeDataDelivery then some x.immData else none
  flags : request.flags =
    if request.fn = .writemsg then fiRemoteCqData ||| fiDeliveryComplete else 0#64
  /-- No context if the call injects, and otherwise the one that it has acquired. -/
  context : if x.inject cfg then request.context = none
    else ∃ c, request.context = some c ∧ .acquired x c ∈ s.log

/-- What a call has done when it is at a step. -/
def PostPc.Done (cfg : Setup) (s : Core) (x : Call) : PostPc → Prop
  | .count none => True
  | .acquire => x.inject cfg = false
  | .setCallback c | .count (some c) | .execute (some c) =>
    x.inject cfg = false ∧ .acquired x c ∈ s.log
  | .execute none => x.inject cfg = true
  | .deliveryTest c | .writemsg c | .fallbackTest c =>
    x.inject cfg = false ∧ .acquired x c ∈ s.log ∧ x.func = .writeDataDelivery
  | .injectComplete | .injectCallback | .injectRunning | .ret =>
    ∃ request, .accepted x request ∈ s.log

def Frame.Done (cfg : Setup) (s : Shared) : Frame → Prop
  | .posting x pc => pc.Done cfg s.core x
  | _ => True

theorem PostPc.Done.mono {s s' : Core} {x : Call} {pc : PostPc} (h : pc.Done cfg s x)
    (hlog : s.log <:+ s'.log) : pc.Done cfg s' x := by
  unfold PostPc.Done at h ⊢
  split <;> first
    | exact h
    | exact ⟨h.1, hlog.subset h.2⟩
    | exact ⟨h.1, hlog.subset h.2.1, h.2.2⟩
    | exact h.imp fun _ hr => hlog.subset hr

theorem Call.inject_of_countsFirst {x : Call} (h : x.func.countsFirst = false) :
    x.inject cfg = false := by
  cases hfunc : x.func with
  | send | recv =>
    rw [hfunc] at h
    cases h
  | read | write | writeData | writeDataDelivery => simp [inject, hfunc]

/-- Every step of a posting function does its part; `write_data_delivery` never returns without
having posted, as past its loop the flag is cleared. -/
theorem FrameStep.done (h : FrameStep cfg i s f s' fs) (hloop : f.LeftLoop s)
    (hf : f.Done cfg s) : ∀ g ∈ fs, g.Done cfg s' := by
  cases h with
  | @call _ x =>
    have hentry : PostPc.Done cfg s.core.begin x x.func.entry := by
      unfold Func.entry
      split
      · trivial
      · exact Call.inject_of_countsFirst (Bool.eq_false_iff.mpr ‹_›)
    intro g hg
    rcases List.mem_cons.mp hg with rfl | hg
    · exact hentry
    · rw [List.mem_singleton.mp hg]
      unfold Frame.Done at hf ⊢
      split <;> trivial
  | @count x ctx =>
    have hnext : PostPc.Done cfg (s.core.countPosted x) x (x.afterCount cfg ctx) := by
      cases ctx with
      | none =>
        show PostPc.Done cfg _ x (if x.inject cfg then .execute none else .acquire)
        split
        · assumption
        · exact Bool.eq_false_iff.mpr ‹_›
      | some c =>
        have hacquired : .acquired x c ∈ (s.core.countPosted x).log := List.mem_cons_of_mem _ hf.2
        show PostPc.Done cfg _ x
          (if x.func = .writeDataDelivery then .deliveryTest c else .execute (some c))
        split
        · exact ⟨hf.1, hacquired, ‹_›⟩
        · exact ⟨hf.1, hacquired⟩
    exact List.forall_mem_singleton.mpr hnext
  | @acquire x =>
    exact List.forall_mem_singleton.mpr ⟨hf, List.mem_cons_self ..⟩
  | @setCallback x c =>
    have hnext : PostPc.Done cfg (s.core.setCallback c x.callback) x (x.afterSetCallback c) := by
      unfold Call.afterSetCallback
      split <;> exact hf
    exact List.forall_mem_singleton.mpr hnext
  | @deliveryTest x c =>
    have hnext : PostPc.Done cfg s.core x
        (if s.deliveryCompleteSupported then .writemsg c else .fallbackTest c) := by
      split <;> exact hf
    exact List.forall_mem_singleton.mpr hnext
  | noFallback hflag =>
    -- a call that has left its loop without posting has seen the flag cleared
    exact absurd hloop (by simp [Frame.LeftLoop, hflag])
  | fallback => exact List.forall_mem_singleton.mpr ⟨hf.1, hf.2.1⟩
  | poll | waitMsg | waitWrites | executeAgain | writemsgAgain | writemsgFallback =>
    simpa [Frame.Done, PostPc.Done] using hf
  | executeAccepted | writemsgAccepted | injectAccepted =>
    exact List.forall_mem_singleton.mpr ⟨_, List.mem_cons_self ..⟩
  | injectComplete | injectInvoke | injectSkip | injectReturn =>
    obtain ⟨request, haccepted⟩ := hf
    exact List.forall_mem_singleton.mpr ⟨request, by simp [Shared.retire, haccepted]⟩
  | _ => simp [Frame.Done]

theorem Call.OwnRequest.mono {s s' : Core} {x : Call} {request : FiRequest}
    (h : x.OwnRequest cfg s request) (hlog : s.log <:+ s'.log) : x.OwnRequest cfg s' request := by
  refine { h with context := ?_ }
  have hcontext := h.context
  cases hinject : x.inject cfg with
  | true => simpa [hinject] using hcontext
  | false =>
    simp only [hinject, Bool.false_eq_true, if_false] at hcontext ⊢
    exact hcontext.imp fun _ hc => ⟨hc.1, hlog.subset hc.2⟩

/-- The tag that is packed with no context. -/
theorem makeTag64_zero (tag : BitVec 64) :
    makeTag64 tag 0#64 = BitVec.ofNat 64 (tag.toNat % 2 ^ 24) := by
  have hlt : tag.toNat % 2 ^ 24 < 2 ^ 64 := (Nat.mod_lt _ (by decide)).trans (by decide)
  have hzero : (0#64).toNat = 0 := rfl
  apply BitVec.eq_of_toNat_eq
  rw [toNat_makeTag64, hzero, BitVec.toNat_ofNat, Nat.mod_eq_of_lt hlt]
  omega

/-- What a call with a context hands to `execute_fi_function`. -/
theorem Call.ownRequest_request {s : Core} {x : Call} {c : ℕ} (hinject : x.inject cfg = false)
    (hacquired : .acquired x c ∈ s.log) : x.OwnRequest cfg s (x.request (some c)) := by
  cases hfunc : x.func <;>
    constructor <;>
      simp [request, hfunc, taggedRequest, rmaRequest, hinject, makeTag64_zero, hacquired]

/-- What an injecting `send` hands to it. -/
theorem Call.ownRequest_inject {s : Core} {x : Call} (hinject : x.inject cfg = true) :
    x.OwnRequest cfg s (x.request none) := by
  have hfunc := func_of_inject hinject
  constructor <;> simp [request, hfunc, taggedRequest, hinject, makeTag64_zero]

/-- What `write_data_delivery` hands to `fi_writemsg`. -/
theorem Call.ownRequest_writemsg {s : Core} {x : Call} {c : ℕ} (hinject : x.inject cfg = false)
    (hacquired : .acquired x c ∈ s.log) (hfunc : x.func = .writeDataDelivery) :
    x.OwnRequest cfg s (x.writemsgRequest (some c)) := by
  constructor <;> simp [writemsgRequest, rmaRequest, hfunc, hinject, hacquired]

/-- A step adds to the log the acceptance of own requests only. -/
theorem FrameStep.accepted (h : FrameStep cfg i s f s' fs) (hf : f.Done cfg s) :
    ∀ x request, .accepted x request ∈ s'.core.log →
      .accepted x request ∈ s.core.log ∨ x.OwnRequest cfg s.core request := by
  cases h with
  | @executeAccepted y c =>
    -- `execute_fi_function` with a context
    intro x request hmem
    rcases List.mem_cons.mp hmem with heq | hmem
    · obtain ⟨rfl, rfl⟩ := Event.accepted.inj heq
      exact .inr (Call.ownRequest_request hf.1 hf.2)
    · exact .inl hmem
  | @writemsgAccepted y c =>
    -- `fi_writemsg`
    intro x request hmem
    rcases List.mem_cons.mp hmem with heq | hmem
    · obtain ⟨rfl, rfl⟩ := Event.accepted.inj heq
      exact .inr (Call.ownRequest_writemsg hf.1 hf.2.1 hf.2.2)
    · exact .inl hmem
  | @injectAccepted y =>
    -- `execute_fi_function` with `fi_tinject` or `fi_inject_write`, which take no context
    intro x request hmem
    rcases List.mem_cons.mp hmem with heq | hmem
    · obtain ⟨rfl, rfl⟩ := Event.accepted.inj heq
      exact .inr (Call.ownRequest_inject hf)
    · exact .inl hmem
  | _ =>
    intro x request hmem
    exact .inl (by simpa [Shared.retire] using hmem)

end LibFatbat
