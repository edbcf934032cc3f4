import LibFatbat.Communicator.Machine

/-!
# Frames and stacks

`forall_frames` is the proof rule for properties of single frames. By it, a posting function is at
a step that it has (`onPath_of_reachable`), and past its loop `write_data_delivery` has seen the
flag cleared (`leftLoop_of_reachable`). `CommStep.count_counted` says what a step counts as posted,
and `callers_of_reachable` which frames may stand below others.
-/

open Concurrent

namespace LibFatbat

variable {cfg : Setup} {i : ℕ} {s s' : Shared} {f : Frame} {fs : List Frame}
  {c : Config Shared (List Frame)}

/-- What a step does to the state that the threads share. -/
inductive SharedStep (cfg : Setup) : Shared → Shared → Prop
  | frame {i : ℕ} {s s' : Shared} {f : Frame} {fs : List Frame} (h : FrameStep cfg i s f s' fs) :
      SharedStep cfg s s'
  | unwind {s : Shared} (dropped : List Frame) : SharedStep cfg s (s.drop dropped)

theorem CommStep.shared {stack stack' : List Frame} (h : CommStep cfg i s stack s' stack') :
    SharedStep cfg s s' := by
  cases h with
  | run h =>
    obtain ⟨h⟩ := h
    exact .frame h
  | unwind => exact .unwind _

/-- Nothing is taken off the log. -/
theorem SharedStep.log_suffix (h : SharedStep cfg s s') : s.core.log <:+ s'.core.log := by
  cases h with
  | frame h => cases h <;> simp [Shared.accept, Shared.retire]
  | unwind dropped => simp [Shared.drop]

/-- A property of a frame and the shared state holds of every frame on every stack if it holds of
the frames that a step makes, and every step keeps it for the others. -/
theorem forall_frames {P : Shared → Frame → Prop} (hmain : P .start .main)
    (hown : ∀ c i f s' fs, (communicator cfg).Reachable c → FrameStep cfg i c.shared f s' fs →
      P c.shared f → ∀ g ∈ fs, P s' g)
    (hother : ∀ s s' g, SharedStep cfg s s' → P s g → P s' g)
    (hc : (communicator cfg).Reachable c) : ∀ (j : ℕ) (stack : List Frame),
      c.threads[j]? = some stack → ∀ f ∈ stack, P c.shared f := by
  refine hc.forall_threads (P := fun _ s stack => ∀ f ∈ stack, P s f) ?_ ?_ ?_
  · rintro c ⟨hshared, hstacks⟩ j stack hget f hf
    rw [hstacks stack (List.mem_of_getElem? hget), List.mem_singleton] at hf
    rw [hshared, hf]
    exact hmain
  · intro c j stack s' stack' hc hget hP h g hg
    have hshared := h.shared
    cases h with
    | run h =>
      obtain ⟨h⟩ := h
      rcases List.mem_append.mp hg with hg | hg
      · exact hown _ _ _ _ _ hc h (hP _ (List.mem_cons_self ..)) g hg
      · exact hother _ _ g hshared (hP g (List.mem_cons_of_mem _ hg))
    | unwind =>
      -- the frames that are left were on the stack before
      exact hother _ _ g hshared (hP g (List.mem_append_right _ hg))
  · intro c j k stack stack₂ s' l' _ _ _ _ _ hP h g hg
    exact hother _ _ g h.shared (hP g hg)

/-! ### The steps of posting functions -/

/-- The frame of a posting function is at a step that the function has. -/
def Frame.OnPath (cfg : Setup) : Frame → Prop
  | .posting x (.count none) => x.func.countsFirst = true
  | .posting x (.execute none) | .posting x .injectComplete | .posting x .injectCallback =>
    x.inject cfg = true
  | _ => True

/-- A posting function goes on to a step that it has. -/
theorem FrameStep.onPath (h : FrameStep cfg i s f s' fs) (hf : f.OnPath cfg) :
    ∀ g ∈ fs, g.OnPath cfg := by
  -- the branches that depend on the configuration are taken as the path demands
  cases h with
  | @call _ x =>
    have hentry : Frame.OnPath cfg (.posting x x.func.entry) := by
      unfold Func.entry
      split
      · assumption
      · trivial
    simpa [hf] using hentry
  | @count x ctx =>
    have hnext : Frame.OnPath cfg (.posting x (x.afterCount cfg ctx)) := by
      unfold Call.afterCount
      split
      · split
        · assumption
        · trivial
      · split <;> trivial
    exact List.forall_mem_singleton.mpr hnext
  | @setCallback x c =>
    have hnext : Frame.OnPath cfg (.posting x (x.afterSetCallback c)) := by
      unfold Call.afterSetCallback
      split <;> trivial
    exact List.forall_mem_singleton.mpr hnext
  | @deliveryTest x c =>
    have hnext : Frame.OnPath cfg
        (.posting x (if s.deliveryCompleteSupported then .writemsg c else .fallbackTest c)) := by
      split <;> trivial
    exact List.forall_mem_singleton.mpr hnext
  | poll | waitMsg | waitWrites | injectAccepted | injectComplete | executeAgain =>
    simpa [Frame.OnPath] using hf
  | _ => simp [Frame.OnPath]

theorem onPath_of_reachable (hc : (communicator cfg).Reachable c) : ∀ (j : ℕ) (stack : List Frame),
    c.threads[j]? = some stack → ∀ f ∈ stack, f.OnPath cfg :=
  forall_frames (P := fun _ f => f.OnPath cfg) trivial (fun _ _ _ _ _ _ h hf => h.onPath hf)
    (fun _ _ _ _ hg => hg) hc

/-! ### The flag of `write_data_delivery` -/

/-- `delivery_complete_supported` is never set again. -/
theorem SharedStep.flag_eq_false (h : SharedStep cfg s s')
    (hflag : s.deliveryCompleteSupported = false) : s'.deliveryCompleteSupported = false := by
  cases h with
  | frame h => cases h <;> first | exact hflag | rfl
  | unwind => exact hflag

/-- A call that tests the flag after its loop has seen it cleared. -/
def Frame.LeftLoop (s : Shared) : Frame → Prop
  | .posting _ (.fallbackTest _) => s.deliveryCompleteSupported = false
  | _ => True

/-- A call leaves its loop when it has cleared the flag or found it cleared. -/
theorem FrameStep.leftLoop (h : FrameStep cfg i s f s' fs) (hf : f.LeftLoop s) :
    ∀ g ∈ fs, g.LeftLoop s' := by
  cases h with
  | @call _ x =>
    have hentry : Frame.LeftLoop s (.posting x x.func.entry) := by
      unfold Func.entry
      split <;> trivial
    simpa using ⟨hentry, hf⟩
  | @count x ctx =>
    have hnext : Frame.LeftLoop s (.posting x (x.afterCount cfg ctx)) := by
      unfold Call.afterCount
      split <;> split <;> trivial
    exact List.forall_mem_singleton.mpr hnext
  | @setCallback x c =>
    have hnext : Frame.LeftLoop s (.posting x (x.afterSetCallback c)) := by
      unfold Call.afterSetCallback
      split <;> trivial
    exact List.forall_mem_singleton.mpr hnext
  | deliveryTest =>
    cases hflag : s.deliveryCompleteSupported <;> simp [Frame.LeftLoop, hflag]
  | poll | waitMsg | waitWrites => simpa [Frame.LeftLoop] using hf
  | _ => simp [Frame.LeftLoop]

theorem Frame.LeftLoop.mono (h : f.LeftLoop s) (hs : SharedStep cfg s s') : f.LeftLoop s' := by
  unfold LeftLoop at h ⊢
  split
  · exact hs.flag_eq_false h
  · trivial

theorem leftLoop_of_reachable (hc : (communicator cfg).Reachable c) :
    ∀ (j : ℕ) (stack : List Frame), c.threads[j]? = some stack →
      ∀ f ∈ stack, f.LeftLoop c.shared :=
  forall_frames (P := fun s f => f.LeftLoop s) trivial (fun _ _ _ _ _ _ h hf => h.leftLoop hf)
    (fun _ _ _ h hg => hg.mono h) hc

/-- Operations that end without an exception are finished, and have given back their context. -/
theorem FrameStep.retired (h : FrameStep cfg i s f s' fs) (hloop : f.LeftLoop s)
    (hretired : ∀ t ∈ s.retired, t.ctx = none ∧ t.stage = .finished) :
    ∀ t ∈ s'.retired, t.ctx = none ∧ t.stage = .finished := by
  cases h with
  | noFallback hflag =>
    -- a call tests the flag again after the loop only if it was cleared, and so it posts
    exact absurd hloop (by simp [Frame.LeftLoop, hflag])
  | injectReturn | injectSkip | push =>
    intro t ht
    rcases Multiset.mem_cons.mp ht with rfl | ht
    · exact ⟨rfl, rfl⟩
    · exact hretired t ht
  | _ => exact hretired

theorem retired_of_exceptionFree (hc : (exceptionFree cfg).Reachable c) :
    ∀ t ∈ c.shared.retired, t.ctx = none ∧ t.stage = .finished := by
  refine hc.invariant
    (I := fun c => ∀ t ∈ c.shared.retired, t.ctx = none ∧ t.stage = .finished) ?_ ?_
  · rintro c ⟨hshared, -⟩ t ht
    rw [hshared] at ht
    cases ht
  · rintro c _ hc ih ⟨j, hget, -, h⟩
    obtain ⟨h⟩ := h
    have hloop := leftLoop_of_reachable hc.of_restrict j _ hget _ (List.mem_cons_self ..)
    exact h.retired hloop ih

/-! ### What a step counts -/

/-- The kind of the operation whose posted counter is incremented next. -/
def nextCounted : List Frame → Option Kind
  | .posting x (.count _) :: _ => some x.kind
  | _ => none

/-- The user's code counts nothing. -/
theorem nextCounted_of_isUser {f : Frame} {rest : List Frame} (huser : f.isUser) :
    nextCounted (f :: rest) = none := by
  unfold nextCounted
  split
  · next heq =>
    obtain ⟨rfl, -⟩ := List.cons.inj heq
    cases huser
  · rfl

/-- A frame counts the operation that is next. -/
theorem FrameStep.count_counted {f : Frame} {fs rest : List Frame} (h : FrameStep cfg i s f s' fs)
    (k : Kind) :
    s'.core.count (Event.isCountedOf k) = s.core.count (Event.isCountedOf k) +
      if nextCounted (f :: rest) = some k then 1 else 0 := by
  cases h with
  | call huser | poll huser | waitMsg huser | waitWrites target huser =>
    rw [nextCounted_of_isUser huser]
    rfl
  | count => simp [nextCounted, Core.count, Core.countPosted, Event.isCountedOf, List.countP_cons]
  | _ => simp [nextCounted, Core.count, Event.isCountedOf, Shared.accept, Shared.retire]

/-- A thread counts the operation that is next, and nothing when an exception is thrown. -/
theorem CommStep.count_counted {stack stack' : List Frame}
    (h : CommStep cfg i s stack s' stack') (k : Kind) :
    s'.core.count (Event.isCountedOf k) = s.core.count (Event.isCountedOf k) +
      if nextCounted stack = some k then 1 else 0 := by
  cases h with
  | run h =>
    obtain ⟨h⟩ := h
    exact h.count_counted k
  | unwind hthrow =>
    rw [List.cons_append, nextCounted_of_isUser hthrow]
    rfl

/-! ### Callers -/

/-- The frames that call: the user's code, and those that poll or handle a completion. -/
def Frame.isCaller : Frame → Bool
  | .posting _ (.execute _) | .posting _ (.deliveryTest _) | .polling (.txBatch ..)
  | .polling (.rxBatch ..) | .polling (.rxCancelled _) => true
  | f => f.isUser

theorem Frame.isCaller_of_isUser (h : f.isUser) : f.isCaller := by
  unfold isCaller
  split <;> first | rfl | exact h

/-- A step leaves under the running frame only the one that has called it. -/
theorem FrameStep.callers (h : FrameStep cfg i s f s' fs) : ∀ g ∈ fs.tail, g.isCaller := by
  cases h with
  | call huser | poll huser | waitMsg huser | waitWrites target huser =>
    exact List.forall_mem_singleton.mpr (Frame.isCaller_of_isUser huser)
  | _ => simp [Frame.isCaller]

/-- Below the running frame there are callers only. -/
theorem callers_of_reachable (hc : (communicator cfg).Reachable c) : ∀ (j : ℕ)
    (stack : List Frame), c.threads[j]? = some stack → ∀ f ∈ stack.tail, f.isCaller := by
  refine hc.forall_threads (P := fun _ _ stack => ∀ f ∈ stack.tail, f.isCaller) ?_ ?_ ?_
  · rintro c ⟨-, hstacks⟩ j stack hget
    rw [hstacks stack (List.mem_of_getElem? hget)]
    simp
  · intro c j stack s' stack' hc hget hP h
    cases h with
    | run h =>
      obtain ⟨h⟩ := h
      rename_i f fs rest
      cases fs with
      | nil =>
        -- the frame has returned to its caller
        exact fun g hg => hP g (List.mem_of_mem_tail hg)
      | cons g₀ fs =>
        intro g hg
        rcases List.mem_append.mp hg with hg | hg
        · exact h.callers g hg
        · exact hP g hg
    | @unwind f g₀ dropped rest =>
      intro g hg
      exact hP g (List.mem_append_right _ (List.mem_cons_of_mem _ hg))
  · exact fun _ _ _ _ _ _ _ _ _ _ _ _ hP _ => hP

end LibFatbat
