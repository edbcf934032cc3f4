import LibFatbat.Communicator.Refinement

/-!
# The callbacks of operations

Which function is invoked for a completed operation, how often, and with which arguments. A
callback is invoked at most once, and only after the operation was completed or cancelled; it was
invoked once when the operation is completed and no thread is about to invoke it
(`invoked_of_completed`). The arguments are those of the call for all posting functions but `recv`,
which stores the callback without binding them (`callbackContract_iff`).
-/

open Concurrent

namespace LibFatbat

variable {cfg : Setup} {c : Config Shared (List Frame)}

/-- The arguments that the user's function should get: the peer and, of messages, the tag. -/
def Call.contractArgs (x : Call) : BitVec 64 × BitVec 64 :=
  match x.func with
  | .send | .recv => (x.peer, x.tag)
  | .read | .write | .writeData | .writeDataDelivery => (x.peer, 0#64)

/-- The callback passed to a call is invoked once, after the completion, with the right
arguments. -/
structure CallbackContract (s : Core) (x : Call) : Prop where
  once : s.count (Event.isInvoked x) = 1
  after : ∀ args l, (.invoked x args :: l) <:+ s.log → .completed x ∈ l
  args : ∀ args, .invoked x args ∈ s.log → args = x.contractArgs

theorem Call.callbackArgs_eq_iff (x : Call) :
    x.callbackArgs = x.contractArgs ↔ (x.func = .recv → x.peer = 0#64 ∧ x.tag = 0#64) := by
  cases hfunc : x.func with
  | recv =>
    simp only [callbackArgs, contractArgs, hfunc, Prod.mk.injEq, forall_const]
    exact ⟨fun h => ⟨h.1.symm, h.2.symm⟩, fun h => ⟨h.1.symm, h.2.symm⟩⟩
  | send | read | write | writeData | writeDataDelivery => simp [callbackArgs, contractArgs, hfunc]

/-! ### Operations whose callback is due -/

/-- The stages between the counting of a completion and the invocation of the callback. -/
def Stage.isDue : Stage → Bool
  | .completed | .cancelled | .injectReady => true
  | _ => false

/-- What is settled, and not waiting for its callback, is past the invocation. -/
theorem Stage.isInvoked_of_isSettled {stage : Stage} (hsettled : stage.isSettled)
    (hdue : stage.isDue = false) : stage.isInvoked = true := by
  cases stage with
  | posting | injected | inflight => cases hsettled
  | injectReady | completed | cancelled => cases hdue
  | injectRunning | running | invoked | cleared | finished => rfl

/-- The frame is about to invoke the callback of a call, or to find that there is none. -/
def Frame.Invokes (x : Call) : Frame → Prop
  | .handling y _ (.invokeCb _) | .posting y .injectCallback => y = x
  | _ => False

/-- The stages in which the callback runs. -/
def Stage.isRunning : Stage → Bool
  | .running | .injectRunning => true
  | _ => false

/-- The callback of a call runs on top of the frame. -/
def Frame.Runs (x : Call) : Frame → Prop
  | .handling y _ .running | .posting y .injectRunning => y = x
  | _ => False

/-- A frame invokes the callback of an operation in its hands, or has invoked it, or the operation
is at another stage. -/
theorem Frame.callback_cases {f : Frame} {t : Token} (ht : t ∈ f.tokens) :
    (f.Invokes t.call ∧ t.stage.isDue) ∨ (f.Runs t.call ∧ t.stage.isRunning) ∨
      (t.stage.isDue = false ∧ t.stage.isRunning = false) := by
  cases f with
  | main | waiting pc => cases ht
  | posting x pc =>
    cases pc with
    -- nothing is in the hands of a call that is about to return
    | ret => cases ht
    | injectCallback =>
      obtain rfl := Multiset.mem_singleton.mp ht
      exact .inl ⟨rfl, rfl⟩
    | injectRunning =>
      obtain rfl := Multiset.mem_singleton.mp ht
      exact .inr (.inl ⟨rfl, rfl⟩)
    | _ =>
      obtain rfl := Multiset.mem_singleton.mp ht
      exact .inr (.inr ⟨rfl, rfl⟩)
  | polling pc =>
    -- an operation whose entry is still in a batch is not at its callback
    obtain ⟨o, rfl⟩ := PollPc.exists_op_of_mem ht
    exact .inr (.inr ⟨rfl, rfl⟩)
  | handling x a pc =>
    obtain rfl := Multiset.mem_singleton.mp ht
    cases pc with
    | invokeCb cancelled => exact .inl ⟨rfl, by cases cancelled <;> rfl⟩
    | running => exact .inr (.inl ⟨rfl, rfl⟩)
    | clear | push => exact .inr (.inr ⟨rfl, rfl⟩)

theorem Frame.invokes_of_isDue {f : Frame} {t : Token} (ht : t ∈ f.tokens)
    (hdue : t.stage.isDue) : f.Invokes t.call := by
  rcases Frame.callback_cases ht with ⟨hinvokes, -⟩ | ⟨-, hrunning⟩ | ⟨hnot, -⟩
  · exact hinvokes
  · cases hstage : t.stage <;> simp [hstage, Stage.isDue, Stage.isRunning] at hdue hrunning
  · rw [hnot] at hdue
    cases hdue

/-- A frame that calls is not about to invoke a callback. -/
theorem Frame.not_isDue_of_isCaller {f : Frame} (hf : f.isCaller) :
    ∀ t ∈ f.tokens, t.stage.isDue = false := by
  intro t ht
  by_contra hdue
  have hinvokes := Frame.invokes_of_isDue ht (by simpa using hdue)
  unfold Frame.Invokes at hinvokes
  split at hinvokes <;> simp [Frame.isCaller, Frame.isUser] at hf hinvokes

/-- No operation is over, or lost, whose callback is due. -/
theorem not_isDue_of_mem_retired (hc : (communicator cfg).Reachable c) :
    ∀ t ∈ c.shared.retired, t.stage.isDue = false := by
  refine hc.invariant (I := fun c => ∀ t ∈ c.shared.retired, t.stage.isDue = false) ?_ ?_
  · rintro c ⟨hshared, -⟩ t ht
    rw [hshared] at ht
    cases ht
  · rintro c _ hc ih ⟨j, hget, h⟩
    cases h with
    | run h =>
      obtain ⟨h⟩ := h
      cases h with
      -- the steps that retire an operation, with no callback to come
      | noFallback | injectReturn | injectSkip | push =>
        intro t ht
        rcases Multiset.mem_cons.mp ht with rfl | ht
        · rfl
        · exact ih t ht
      | _ => exact ih
    | @unwind f g dropped rest hthrow =>
      have hcallers := callers_of_reachable hc j _ hget
      intro t ht
      rcases Multiset.mem_add.mp ht with ht | ht
      · -- what the dropped frames had in their hands
        obtain ⟨u, hu, rfl⟩ := Multiset.mem_map.mp ht
        obtain ⟨d, hd, hud⟩ := mem_stackTokens.mp hu
        rcases List.mem_cons.mp hd with rfl | hd
        · exact Frame.not_isDue_of_isCaller (Frame.isCaller_of_isUser hthrow) u hud
        · exact Frame.not_isDue_of_isCaller (hcallers d (List.mem_append_left _ hd)) u hud
      · exact ih t ht

/-- An operation whose callback is due is in the hands of a frame that is about to invoke it. -/
theorem exists_invokes (hc : (communicator cfg).Reachable c) {t : Token} (ht : t ∈ tokens c)
    (hdue : t.stage.isDue) : ∃ stack ∈ c.threads, ∃ f ∈ stack, f.Invokes t.call := by
  rcases mem_tokens ht with ht | ht | ⟨stack, hstack, f, hf, htf⟩
  · obtain ⟨o, -, rfl⟩ := Multiset.mem_map.mp ht
    cases hdue
  · rw [not_isDue_of_mem_retired hc t ht] at hdue
    cases hdue
  · exact ⟨stack, hstack, f, hf, Frame.invokes_of_isDue htf hdue⟩

/-! ### The contract -/

/-- Two entries of a list that are counted are equal if only one is. -/
theorem eq_of_countP_le_one {α : Type*} {p : α → Bool} {l : List α} (h : l.countP p ≤ 1)
    {a b : α} (ha : a ∈ l) (hb : b ∈ l) (hpa : p a) (hpb : p b) : a = b := by
  have hfa : a ∈ l.filter p := List.mem_filter.mpr ⟨ha, hpa⟩
  have hfb : b ∈ l.filter p := List.mem_filter.mpr ⟨hb, hpb⟩
  rw [List.countP_eq_length_filter] at h
  match hl : l.filter p with
  | [] => simp [hl] at hfa
  | [x] =>
    rw [hl, List.mem_singleton] at hfa hfb
    rw [hfa, hfb]
  | x :: y :: rest => simp [hl] at h

theorem Event.eq_of_isInvoked {x : Call} {e : Event} (h : e.isInvoked x) :
    ∃ args, e = .invoked x args := by
  unfold isInvoked at h
  split at h
  · exact ⟨_, by rw [of_decide_eq_true h]⟩
  · cases h

/-- The entry of an operation is processed at most once. -/
theorem settled_unique (hc : (communicator cfg).Reachable c) {x : Call} {e e' : Event}
    (he : e ∈ c.shared.core.log) (he' : e' ∈ c.shared.core.log) (h : Event.isSettled x e)
    (h' : Event.isSettled x e') : e = e' := by
  have hle := countTokens_call_le_one (reachable_lifecycle hc) x fun t => t.stage.isSettled
  rw [← settled_eq (reachable_lifecycle hc)] at hle
  exact eq_of_countP_le_one hle he he' h h'

theorem invoked_le_one (hc : (communicator cfg).Reachable c) (x : Call) :
    c.shared.core.count (Event.isInvoked x) ≤ 1 := by
  have hle := countTokens_call_le_one (reachable_lifecycle hc) x
    fun t => x.hasCallback && t.stage.isInvoked
  rwa [← invoked_eq (reachable_lifecycle hc)] at hle

/-- The callback of a completed operation was invoked once no thread is about to. -/
theorem invoked_of_completed (hc : (communicator cfg).Reachable c) {x : Call}
    (hcb : x.hasCallback) (hdone : .completed x ∈ c.shared.core.log)
    (hinvokes : ∀ stack ∈ c.threads, ∀ f ∈ stack, ¬ f.Invokes x) :
    c.shared.core.count (Event.isInvoked x) = 1 := by
  have hlife := reachable_lifecycle hc
  -- the operation is past its queue, and its stage is not that of a due callback
  have hpos : 0 < c.shared.core.count (Event.isSettled x) :=
    List.countP_pos_iff.mpr ⟨_, hdone, by simp [Event.isSettled]⟩
  rw [settled_eq hlife] at hpos
  obtain ⟨t, ht, hp⟩ := exists_of_countTokens_pos hpos
  simp only [Bool.and_eq_true, decide_eq_true_eq] at hp
  obtain ⟨rfl, hsettled⟩ := hp
  have hdue : t.stage.isDue = false := by
    by_contra hdue
    obtain ⟨stack, hstack, f, hf, h⟩ := exists_invokes hc ht (by simpa using hdue)
    exact hinvokes stack hstack f hf h
  have hinvoked := Stage.isInvoked_of_isSettled hsettled hdue
  have hpos := countTokens_pos
    (p := fun u => u.call = t.call && (t.call.hasCallback && u.stage.isInvoked)) ht
    (by simp [hcb, hinvoked])
  rw [← invoked_eq hlife] at hpos
  have hle := invoked_le_one hc t.call
  simp only at hpos
  omega

/-- The contract, for a call whose operation is completed and whose callback no thread is about to
invoke: it holds unless the call is a `recv` with a peer or a tag to pass on. In every other state
too the callback was invoked at most once, and not before the entry of the operation was
processed. -/
theorem callbackContract_iff (hc : (communicator cfg).Reachable c) {x : Call}
    (hcb : x.hasCallback) :
    c.shared.core.count (Event.isInvoked x) ≤ 1 ∧
      (∀ args l, (.invoked x args :: l) <:+ c.shared.core.log → ∃ e ∈ l, Event.isSettled x e) ∧
      (.completed x ∈ c.shared.core.log →
        (∀ stack ∈ c.threads, ∀ f ∈ stack, ¬ f.Invokes x) →
          (CallbackContract c.shared.core x ↔
            (x.func = .recv → x.peer = 0#64 ∧ x.tag = 0#64))) := by
  have hlife := reachable_lifecycle hc
  have hargs := invoked_args hlife
  refine ⟨invoked_le_one hc x, settled_before_invoked hlife x, fun hdone hinvokes => ?_⟩
  have honce := invoked_of_completed hc hcb hdone hinvokes
  rw [← Call.callbackArgs_eq_iff]
  constructor
  · -- it is invoked once, with the arguments that the log has
    intro h
    have hpos : 0 < c.shared.core.count (Event.isInvoked x) := by omega
    obtain ⟨e, he, hx⟩ := List.countP_pos_iff.mp hpos
    obtain ⟨args, rfl⟩ := Event.eq_of_isInvoked hx
    rw [← hargs _ he x args rfl]
    exact h.args args he
  · intro h
    refine ⟨honce, ?_, ?_⟩
    · -- what was processed before the invocation can only be the completion
      intro args l hl
      obtain ⟨e, he, hx⟩ := settled_before_invoked hlife x args l hl
      have hlog : e ∈ c.shared.core.log := hl.subset (List.mem_cons_of_mem _ he)
      rwa [settled_unique hc hdone hlog (by simp [Event.isSettled]) hx]
    · intro args hmem
      rw [hargs _ hmem x args rfl, h]

/-- A small `send`, which injects. -/
theorem callbackContract_iff_inject :
    ∃ (cfg : Setup) (c : Config Shared (List Frame)) (x : Call), (communicator cfg).Reachable c ∧
      x.peer = 1#64 ∧ x.tag = 5#64 ∧ CallbackContract c.shared.core x := by
  have h0 : (communicator ⟨.other, .safe, .single, false, 64, 16⟩).Reachable
      ⟨.start, [[.main]]⟩ := .start ⟨rfl, by simp⟩
  have h1 := h0.next 0 rfl (.run (.top (.call
    (x := ⟨0, .send, 1#64, 5#64, 8, 0, 0#64, 0#64, 0#64, true⟩) rfl rfl)))
  have h2 := h1.next 0 rfl (.run (.top .count))
  have h3 := h2.next 0 rfl (.run (.top (.injectAccepted 0 rfl)))
  have h4 := h3.next 0 rfl (.run (.top .injectComplete))
  have h5 := h4.next 0 rfl (.run (.top (.injectInvoke rfl)))
  refine ⟨_, _, ⟨0, .send, 1#64, 5#64, 8, 0, 0#64, 0#64, 0#64, true⟩, h5, rfl, rfl,
    ((callbackContract_iff h5 rfl).2.2 (by decide) ?_).mpr (by decide)⟩
  rintro stack (_ | ⟨_, ⟨⟩⟩) f (_ | ⟨_, _ | ⟨_, ⟨⟩⟩⟩) h
  all_goals cases h

/-- A `recv` from peer 1 with tag 5 completes: its callback gets 0 and 0. -/
theorem not_forall_callbackContract :
    ¬ ∀ (cfg : Setup) (c : Config Shared (List Frame)) (x : Call),
      (communicator cfg).Reachable c → x.hasCallback → .completed x ∈ c.shared.core.log →
        (∀ stack ∈ c.threads, ∀ f ∈ stack, ¬ f.Invokes x) → CallbackContract c.shared.core x := by
  intro hall
  have h0 : (exceptionFree ⟨.other, .safe, .single, false, 64, 16⟩).Reachable
      ⟨.recvCompleted ⟨0, .recv, 1#64, 5#64, 8, 0, 0#64, 0#64, 0#64, true⟩, _⟩ :=
    reachable_recvCompleted rfl rfl (by decide) rfl rfl
  have h1 := exceptionFree_next h0 1 rfl (.invokeCb rfl)
  have hcontract := hall _ _ ⟨0, .recv, 1#64, 5#64, 8, 0, 0#64, 0#64, 0#64, true⟩ h1.of_restrict
    rfl (by decide) ?_
  · exact absurd (hcontract.args (0#64, 0#64) (by decide)) (by decide)
  · rintro stack (_ | ⟨_, _ | ⟨_, ⟨⟩⟩⟩) f hf h
    · rcases hf with _ | ⟨_, ⟨⟩⟩
      cases h
    · rcases hf with _ | ⟨_, _ | ⟨_, _ | ⟨_, ⟨⟩⟩⟩⟩ <;> cases h

end LibFatbat
