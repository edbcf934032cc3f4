import LibFatbat.Communicator.Operation
import LibFatbat.Concurrent.TokenSystem

/-!
# The life of an operation

What happens to one operation from the call that posts it to the recycling of its context, without
the threads that make it happen: a `Token` for each operation, with the stage it is in and the
context it owns, moving over the `Core` of the program's state. `lifecycle` is the `TokenSystem`
of these moves. The communicator's threads refine it (`Communicator.Refinement`), so what is
proved here of every reachable collection of tokens holds of every interleaving of them.

* `contexts_eq`: every context made is in the free list, deleted, or owned by one operation;
* `Token.Armed`: the context of an operation holds the callback that the operation was posted with
  until that callback is invoked;
* `deleted_iff`: a context is deleted exactly when its push to the free list failed;
* `accounting_eq`: an operation counted as posted is counted as complete, was cancelled, or is
  outstanding;
* `invoked_eq`, `finished_eq`, `settled_eq`, `accepted_eq`, `called_eq`: what the log says about
  a call is what the stage of its operation says.
-/

open Concurrent

namespace LibFatbat

/-- Where an operation is. -/
inductive Stage
  /-- Being posted: whether the posted counter was incremented, and whether the callback was stored
  in the context. -/
  | posting (counted armed : Bool)
  /-- Injected; `sends_complete_` not incremented yet. -/
  | injected
  /-- Injected and counted; the callback not invoked yet. -/
  | injectReady
  /-- The callback of an injected message is running. -/
  | injectRunning
  /-- Accepted by the provider, its entry not processed yet. -/
  | inflight
  /-- Its completion was counted; the callback not invoked yet. -/
  | completed
  /-- Its cancellation was found; the callback not invoked yet. -/
  | cancelled
  /-- The callback is running. -/
  | running
  /-- The callback is done with. -/
  | invoked
  /-- `m_callback` is empty; the context not pushed yet. -/
  | cleared
  /-- Over. -/
  | finished
  deriving DecidableEq

/-- An operation: the call it is for, the context it owns, and its stage. An operation is lost when
an exception takes it out of the hands of a thread. -/
structure Token where
  call : Call
  ctx : Option ℕ
  stage : Stage
  lost : Bool
  deriving DecidableEq

/-- The moves of an operation. -/
inductive Move (cfg : Setup) : Core → Token → Core → Token → Prop
  | count {s : Core} {x : Call} {ctx : Option ℕ} {armed : Bool} :
      Move cfg s ⟨x, ctx, .posting false armed, false⟩
        (s.countPosted x) ⟨x, ctx, .posting true armed, false⟩
  | acquire {s : Core} {x : Call} {counted : Bool} :
      Move cfg s ⟨x, none, .posting counted false, false⟩
        (s.acquireFromPool.2.record (.acquired x s.acquireFromPool.1))
        ⟨x, some s.acquireFromPool.1, .posting counted false, false⟩
  | arm {s : Core} {x : Call} {c : ℕ} {counted : Bool} :
      Move cfg s ⟨x, some c, .posting counted false, false⟩
        (s.setCallback c x.callback) ⟨x, some c, .posting counted true, false⟩
  | accept {s : Core} {x : Call} {c : ℕ} {request : FiRequest} :
      Move cfg s ⟨x, some c, .posting true true, false⟩
        (s.record (.accepted x request)) ⟨x, some c, .inflight, false⟩
  | inject {s : Core} {x : Call} {request : FiRequest} (hinject : x.inject cfg) :
      Move cfg s ⟨x, none, .posting true false, false⟩
        (s.record (.accepted x request)) ⟨x, none, .injected, false⟩
  | injectComplete {s : Core} {x : Call} :
      Move cfg s ⟨x, none, .injected, false⟩ (s.countComplete x.kind x)
        ⟨x, none, .injectReady, false⟩
  | injectInvoke {s : Core} {x : Call} {cb : Callback} (hinject : x.inject cfg)
      (hcb : x.passed = some cb) :
      Move cfg s ⟨x, none, .injectReady, false⟩
        (s.invoke cb (x.peer, x.tag)) ⟨x, none, .injectRunning, false⟩
  | injectSkip {s : Core} {x : Call} (hcb : x.passed = none) :
      Move cfg s ⟨x, none, .injectReady, false⟩ s ⟨x, none, .finished, false⟩
  | injectReturn {s : Core} {x : Call} :
      Move cfg s ⟨x, none, .injectRunning, false⟩
        (s.record (.finished x)) ⟨x, none, .finished, false⟩
  | complete {s : Core} {x : Call} {c : ℕ} :
      Move cfg s ⟨x, some c, .inflight, false⟩ (s.countComplete x.kind x)
        ⟨x, some c, .completed, false⟩
  | cancel {s : Core} {x : Call} {c : ℕ} :
      Move cfg s ⟨x, some c, .inflight, false⟩
        (s.record (.cancelled x)) ⟨x, some c, .cancelled, false⟩
  | invoke {s : Core} {x : Call} {c : ℕ} {stage : Stage} {cb : Callback}
      (hstage : stage = .completed ∨ stage = .cancelled) (hcb : s.callback c = some cb) :
      Move cfg s ⟨x, some c, stage, false⟩
        (s.invoke cb (0#64, 0#64)) ⟨x, some c, .running, false⟩
  | skip {s : Core} {x : Call} {c : ℕ} {stage : Stage}
      (hstage : stage = .completed ∨ stage = .cancelled) (hcb : s.callback c = none) :
      Move cfg s ⟨x, some c, stage, false⟩ s ⟨x, some c, .invoked, false⟩
  | callbackReturn {s : Core} {x : Call} {c : ℕ} :
      Move cfg s ⟨x, some c, .running, false⟩
        (s.record (.finished x)) ⟨x, some c, .invoked, false⟩
  | clear {s : Core} {x : Call} {c : ℕ} :
      Move cfg s ⟨x, some c, .invoked, false⟩
        (s.setCallback c none) ⟨x, some c, .cleared, false⟩
  | push {s : Core} {x : Call} {c : ℕ} (pushed : Bool) :
      Move cfg s ⟨x, some c, .cleared, false⟩
        ((s.recycleToPool c pushed).record (.pushed c pushed)) ⟨x, none, .finished, false⟩
  | lose {s : Core} {x : Call} {ctx : Option ℕ} {stage : Stage} :
      Move cfg s ⟨x, ctx, stage, false⟩ s ⟨x, ctx, stage, true⟩

/-- Operations over the core of the program's state. -/
def lifecycle (cfg : Setup) : TokenSystem Core Token where
  init s := s = .start
  create s s' t := s' = s.begin ∧ t.call.id = s.nextCall ∧ t.ctx = none ∧
    t.stage = .posting false false ∧ t.lost = false
  move := Move cfg

section Calls

variable {x : Call} {cb : Callback}

theorem Call.passed_eq_some (h : x.passed = some cb) : cb = ⟨x, none⟩ ∧ x.hasCallback = true := by
  unfold passed at h
  split at h
  · exact ⟨(Option.some.inj h).symm, ‹_›⟩
  · cases h

theorem Call.passed_eq_none (h : x.passed = none) : x.hasCallback = false := by
  unfold passed at h
  split at h
  · cases h
  · exact Bool.eq_false_iff.mpr ‹_›

/-- The arguments with which the code invokes the function passed to a call. -/
def Call.callbackArgs (x : Call) : BitVec 64 × BitVec 64 :=
  match x.func with
  | .send => (x.peer, x.tag)
  | .recv => (0#64, 0#64)
  | .read | .write | .writeData | .writeDataDelivery => (x.peer, 0#64)

/-- The callback stored in a context is the one passed to the call, invoked with these arguments. -/
theorem Call.callback_eq_some (h : x.callback = some cb) :
    cb.call = x ∧ x.hasCallback = true ∧ cb.arguments (0#64, 0#64) = x.callbackArgs := by
  cases hfunc : x.func with
  | recv =>
    rw [callback, hfunc] at h
    obtain ⟨rfl, hcb⟩ := passed_eq_some h
    exact ⟨rfl, hcb, by simp [callbackArgs, hfunc, Callback.arguments]⟩
  | send | read | write | writeData | writeDataDelivery =>
    simp only [callback, hfunc, Option.map_eq_some_iff] at h
    obtain ⟨cb', hpassed, rfl⟩ := h
    obtain ⟨rfl, hcb⟩ := passed_eq_some hpassed
    exact ⟨rfl, hcb, by simp [callbackArgs, hfunc, Callback.arguments, Callback.bind]⟩

theorem Call.callback_eq_none (h : x.callback = none) : x.hasCallback = false := by
  cases hfunc : x.func with
  | recv =>
    rw [callback, hfunc] at h
    exact passed_eq_none h
  | send | read | write | writeData | writeDataDelivery =>
    simp only [callback, hfunc, Option.map_eq_none_iff] at h
    exact passed_eq_none h

theorem Call.callback_isSome (h : x.hasCallback = true) : ∃ cb, x.callback = some cb := by
  cases hcb : x.callback with
  | none => simp [callback_eq_none hcb] at h
  | some cb => exact ⟨cb, rfl⟩

theorem Call.func_of_inject {cfg : Setup} (h : x.inject cfg) : x.func = .send := by
  simp only [inject, Bool.and_eq_true, decide_eq_true_eq] at h
  exact h.1

end Calls

/-! ### Contexts -/

section Contexts

variable {cfg : Setup} {c : TokenConfig Core Token}

/-- 1 for an operation that owns context `a`. -/
def Token.owns (a : ℕ) (t : Token) : ℕ := if t.ctx = some a then 1 else 0

/-- How often context `a` is in the free list or deleted. -/
def Core.recycled (a : ℕ) (s : Core) : ℕ := s.freeList.count a + s.deleted.count a

/-- 1 for a context that has been made. -/
def Core.made (a : ℕ) (s : Core) : ℕ := if a < s.nextCtx then 1 else 0

/-- A context handed out comes off the free list, or is new. -/
theorem Core.recycled_acquireFromPool (s : Core) (a : ℕ) :
    s.acquireFromPool.2.recycled a + (if s.acquireFromPool.1 = a then 1 else 0) + s.made a =
      s.recycled a + s.acquireFromPool.2.made a := by
  unfold acquireFromPool
  split
  · next c rest hlist =>
    simp only [recycled, made, hlist, List.count_cons, beq_iff_eq]
    omega
  · next hlist =>
    simp only [recycled, made, hlist, List.count_nil]
    split_ifs <;> omega

/-- Every context made is in the free list or deleted or owned by an operation, once. -/
theorem contexts_eq (hc : (lifecycle cfg).Reachable c) (a : ℕ) :
    c.shared.recycled a + (c.tokens.map (Token.owns a)).sum = c.shared.made a := by
  refine hc.conserved (Core.recycled a) (Core.made a) (Token.owns a) ?_ ?_ ?_
  · rintro s rfl
    rfl
  · rintro s _ t ⟨rfl, -, hctx, -⟩
    show s.recycled a + t.owns a + s.made a = s.recycled a + s.made a
    simp [Token.owns, hctx]
  · intro s s' t t' R _ hmove
    cases hmove with
    | acquire =>
      -- the context goes from the free list, or from nowhere, to the operation
      have h := s.recycled_acquireFromPool a
      show s.acquireFromPool.2.recycled a + (if some s.acquireFromPool.1 = some a then 1 else 0) +
        s.made a = s.recycled a + 0 + s.acquireFromPool.2.made a
      simp only [Option.some.injEq]
      omega
    | @push x c pushed =>
      -- the context goes from the operation to the free list, or is deleted
      have hbal : ((s.recycleToPool c pushed).record (.pushed c pushed)).recycled a =
          s.recycled a + (if some c = some a then 1 else 0) := by
        cases pushed <;>
          simp only [Core.record, Core.recycleToPool, Core.recycled, List.count_cons, beq_iff_eq,
            Option.some.injEq, if_true, if_false, Bool.false_eq_true] <;> omega
      have hmade : ((s.recycleToPool c pushed).record (.pushed c pushed)).made a = s.made a := by
        cases pushed <;> rfl
      rw [hbal, hmade]
      rfl
    | _ => rfl

/-- A context is deleted exactly when its push failed. -/
theorem deleted_iff (hc : (lifecycle cfg).Reachable c) (a : ℕ) :
    a ∈ c.shared.deleted ↔ .pushed a false ∈ c.shared.log := by
  refine hc.shared_invariant (I := fun s => a ∈ s.deleted ↔ .pushed a false ∈ s.log) ?_ ?_ ?_
  · rintro s rfl
    simp [Core.start]
  · rintro s _ t ⟨rfl, -⟩ h
    exact h
  · intro s s' t t' R _ h hmove
    cases hmove with
    | @push x c pushed =>
      cases pushed with
      | true => simpa [Core.record, Core.recycleToPool] using h
      | false => simp [Core.record, Core.recycleToPool, h]
    | acquire =>
      have hdeleted : s.acquireFromPool.2.deleted = s.deleted := by
        unfold Core.acquireFromPool
        split <;> rfl
      have hlog : s.acquireFromPool.2.log = s.log := by
        unfold Core.acquireFromPool
        split <;> rfl
      simpa [Core.record, hdeleted, hlog] using h
    | _ =>
      simpa [Core.record, Core.countPosted, Core.countComplete, Core.setCallback,
        Core.invoke] using h

/-- Two operations do not own the same context. -/
theorem not_both_own {s : Core} {t u : Token} {R : Multiset Token} {a : ℕ}
    (hc : (lifecycle cfg).Reachable ⟨s, t ::ₘ u ::ₘ R⟩) (ht : t.ctx = some a) :
    u.ctx ≠ some a := by
  intro hu
  have h := contexts_eq hc a
  simp only [Multiset.map_cons, Multiset.sum_cons, Token.owns, ht, hu, if_true, Core.made] at h
  split_ifs at h <;> omega

/-- The stages between the storing of the callback and its invocation. -/
def Stage.isArmed : Stage → Bool
  | .posting _ armed => armed
  | .inflight | .completed | .cancelled => true
  | _ => false

/-- The context of an armed operation holds the operation's callback. -/
def Token.Armed (s : Core) (t : Token) : Prop :=
  ∀ a, t.ctx = some a → t.stage.isArmed = true → s.callback a = t.call.callback

theorem armed_of_mem (hc : (lifecycle cfg).Reachable c) : ∀ t ∈ c.tokens, t.Armed c.shared := by
  refine hc.forall_tokens (P := fun s t => t.Armed s) ?_ ?_ ?_ ?_
  · rintro s _ t ⟨rfl, -, hctx, -⟩ a ha
    rw [hctx] at ha
    cases ha
  · rintro s _ t u ⟨rfl, -⟩ hu
    exact hu
  · intro s s' t t' R _ ht hmove
    cases hmove with
    | arm =>
      intro a ha _
      obtain rfl := Option.some.inj ha
      simp [Core.setCallback]
    | acquire =>
      intro a _ harmed
      cases harmed
    | inject | injectComplete | injectInvoke | injectSkip | injectReturn | push =>
      intro a ha
      cases ha
    | invoke | skip | callbackReturn | clear =>
      intro a _ harmed
      cases harmed
    | count | accept | complete | cancel | lose => exact ht
  · intro s s' t t' u R hc ht hu hmove
    cases hmove with
    | arm | clear =>
      -- only the owner of a context writes its callback
      intro a ha harmed
      have hne := not_both_own hc rfl
      rw [← hu a ha harmed]
      refine Function.update_of_ne ?_ _ _
      rintro rfl
      exact hne ha
    | acquire =>
      intro a ha harmed
      rw [← hu a ha harmed]
      simp only [Core.record, Core.acquireFromPool]
      split <;> rfl
    | push pushed =>
      -- the free list is not read
      cases pushed <;> exact hu
    | _ => exact hu

/-- What a handler finds in its context is the callback that its operation was posted with. -/
theorem callback_eq_of_handled {s : Core} {x : Call} {a : ℕ} {stage : Stage} {R : Multiset Token}
    (hc : (lifecycle cfg).Reachable ⟨s, ⟨x, some a, stage, false⟩ ::ₘ R⟩)
    (hstage : stage = .completed ∨ stage = .cancelled) : s.callback a = x.callback := by
  have harmed := armed_of_mem hc _ (Multiset.mem_cons_self _ R)
  rcases hstage with rfl | rfl
  · exact harmed a rfl rfl
  · exact harmed a rfl rfl

end Contexts

/-! ### Counting -/

section Counting

variable {cfg : Setup} {c : TokenConfig Core Token}

/-- How often an event of a kind is in the log. -/
def Core.count (p : Event → Bool) (s : Core) : ℕ := s.log.countP p

/-- 1 for an operation with a property. -/
def Token.weight (p : Token → Bool) (t : Token) : ℕ := if p t then 1 else 0

/-- How many operations have a property. -/
def countTokens (p : Token → Bool) (tokens : Multiset Token) : ℕ :=
  (tokens.map (Token.weight p)).sum

theorem countTokens_cons (p : Token → Bool) (t : Token) (tokens : Multiset Token) :
    countTokens p (t ::ₘ tokens) = Token.weight p t + countTokens p tokens := by
  simp [countTokens]

/-- A stronger property holds of fewer operations. -/
theorem countTokens_mono {p q : Token → Bool} (h : ∀ t, p t = true → q t = true)
    (tokens : Multiset Token) : countTokens p tokens ≤ countTokens q tokens := by
  induction tokens using Multiset.induction_on with
  | empty => simp [countTokens]
  | cons t tokens ih =>
    rw [countTokens_cons, countTokens_cons]
    have hle : Token.weight p t ≤ Token.weight q t := by
      cases hp : p t with
      | false => simp [Token.weight, hp]
      | true => simp [Token.weight, hp, h t hp]
    omega

/-- Some operation has a property that is counted. -/
theorem exists_of_countTokens_pos {p : Token → Bool} {tokens : Multiset Token}
    (h : 0 < countTokens p tokens) : ∃ t ∈ tokens, p t = true := by
  induction tokens using Multiset.induction_on with
  | empty => simp [countTokens] at h
  | cons t tokens ih =>
    rw [countTokens_cons] at h
    cases hp : p t with
    | true => exact ⟨t, Multiset.mem_cons_self t tokens, hp⟩
    | false =>
      obtain ⟨u, hu, hpu⟩ := ih (by simpa [Token.weight, hp] using h)
      exact ⟨u, Multiset.mem_cons_of_mem hu, hpu⟩

/-- An operation with a property is counted. -/
theorem countTokens_pos {p : Token → Bool} {tokens : Multiset Token} {t : Token}
    (ht : t ∈ tokens) (hp : p t = true) : 0 < countTokens p tokens := by
  obtain ⟨R, rfl⟩ := Multiset.exists_cons_of_mem ht
  rw [countTokens_cons]
  simp [Token.weight, hp]

/-- What the log records of an operation, of kind `e`, when it reaches the stages in `p` is as
much as there are operations in those stages, if every move records an event exactly when it leads
into them. -/
theorem count_eq_countTokens (e : Event → Bool) (p : Token → Bool)
    (hnew : ∀ t : Token, t.stage = .posting false false → p t = false)
    (hmove : ∀ s s' t t' R, (lifecycle cfg).Reachable ⟨s, t ::ₘ R⟩ → Move cfg s t s' t' →
      s'.count e + Token.weight p t = s.count e + Token.weight p t')
    (hc : (lifecycle cfg).Reachable c) : c.shared.count e = countTokens p c.tokens := by
  have h := hc.conserved (fun _ => 0) (Core.count e) (Token.weight p) ?_ ?_ ?_
  · rw [← h, Nat.zero_add]
    rfl
  · rintro s rfl
    rfl
  · rintro s _ t ⟨rfl, -, -, hstage, -⟩
    simp [Token.weight, hnew t hstage, Core.begin, Core.count]
  · intro s s' t t' R hc h
    have hbal := hmove s s' t t' R hc h
    omega

/-! What is added to the log. -/

@[simp]
theorem Core.log_record (s : Core) (e : Event) : (s.record e).log = e :: s.log := rfl

@[simp]
theorem Core.log_countPosted (s : Core) (x : Call) :
    (s.countPosted x).log = .counted x :: s.log := rfl

@[simp]
theorem Core.log_countComplete (s : Core) (kind : Kind) (x : Call) :
    (s.countComplete kind x).log = .completed x :: s.log := rfl

@[simp]
theorem Core.log_acquireFromPool (s : Core) : s.acquireFromPool.2.log = s.log := by
  unfold acquireFromPool
  split <;> rfl

@[simp]
theorem Core.log_setCallback (s : Core) (a : ℕ) (cb : Option Callback) :
    (s.setCallback a cb).log = s.log := rfl

@[simp]
theorem Core.log_recycleToPool (s : Core) (a : ℕ) (pushed : Bool) :
    (s.recycleToPool a pushed).log = s.log := by
  cases pushed <;> rfl

@[simp]
theorem Core.log_invoke (s : Core) (cb : Callback) (args : BitVec 64 × BitVec 64) :
    (s.invoke cb args).log = .invoked cb.call (cb.arguments args) :: s.log := rfl

@[simp]
theorem Core.log_begin (s : Core) : s.begin.log = s.log := rfl

@[simp]
theorem Core.count_begin (q : Event → Bool) (s : Core) : s.begin.count q = s.count q := rfl

@[simp]
theorem Core.count_record (q : Event → Bool) (s : Core) (e : Event) :
    (s.record e).count q = s.count q + if q e then 1 else 0 := by
  simp [count, List.countP_cons]

@[simp]
theorem Core.count_countPosted (q : Event → Bool) (s : Core) (x : Call) :
    (s.countPosted x).count q = s.count q + if q (.counted x) then 1 else 0 := by
  simp [count, List.countP_cons]

@[simp]
theorem Core.count_countComplete (q : Event → Bool) (s : Core) (kind : Kind) (x : Call) :
    (s.countComplete kind x).count q = s.count q + if q (.completed x) then 1 else 0 := by
  simp [count, List.countP_cons]

@[simp]
theorem Core.count_acquireFromPool (q : Event → Bool) (s : Core) :
    s.acquireFromPool.2.count q = s.count q := by
  simp [count]

@[simp]
theorem Core.count_setCallback (q : Event → Bool) (s : Core) (a : ℕ) (cb : Option Callback) :
    (s.setCallback a cb).count q = s.count q := rfl

@[simp]
theorem Core.count_recycleToPool (q : Event → Bool) (s : Core) (a : ℕ) (pushed : Bool) :
    (s.recycleToPool a pushed).count q = s.count q := by
  simp [count]

@[simp]
theorem Core.count_invoke (q : Event → Bool) (s : Core) (cb : Callback)
    (args : BitVec 64 × BitVec 64) :
    (s.invoke cb args).count q =
      s.count q + if q (.invoked cb.call (cb.arguments args)) then 1 else 0 := by
  simp [count, List.countP_cons]

/-! The events that a call records, and the stages in which it has. -/

def Event.isCounted (x : Call) : Event → Bool
  | .counted y => y = x
  | _ => false

def Event.isSettled (x : Call) : Event → Bool
  | .completed y | .cancelled y => y = x
  | _ => false

def Event.isInvoked (x : Call) : Event → Bool
  | .invoked y _ => y = x
  | _ => false

def Event.isFinished (x : Call) : Event → Bool
  | .finished y => y = x
  | _ => false

theorem Core.count_isCounted_pos {s : Core} {x : Call} :
    0 < s.count (Event.isCounted x) ↔ .counted x ∈ s.log := by
  rw [count, List.countP_pos_iff]
  refine ⟨fun ⟨e, he, hx⟩ => ?_, fun h => ⟨_, h, by simp [Event.isCounted]⟩⟩
  cases e <;> simp [Event.isCounted] at hx
  rwa [← hx]

theorem Core.count_isFinished_pos {s : Core} {x : Call} :
    0 < s.count (Event.isFinished x) ↔ .finished x ∈ s.log := by
  rw [count, List.countP_pos_iff]
  refine ⟨fun ⟨e, he, hx⟩ => ?_, fun h => ⟨_, h, by simp [Event.isFinished]⟩⟩
  cases e <;> simp [Event.isFinished] at hx
  rwa [← hx]

def Stage.isCounted : Stage → Bool
  | .posting counted _ => counted
  | _ => true

def Stage.isSettled : Stage → Bool
  | .posting _ _ | .injected | .inflight => false
  | _ => true

def Stage.isInvoked : Stage → Bool
  | .injectRunning | .running | .invoked | .cleared | .finished => true
  | _ => false

def Stage.isFinished : Stage → Bool
  | .invoked | .cleared | .finished => true
  | _ => false

/-- A call has incremented its posted counter when its operation is in a counted stage. -/
theorem counted_eq (hc : (lifecycle cfg).Reachable c) (x : Call) :
    c.shared.count (Event.isCounted x) =
      countTokens (fun t => t.call = x && t.stage.isCounted) c.tokens := by
  refine count_eq_countTokens _ _ (fun t ht => by simp [ht, Stage.isCounted]) ?_ hc
  intro s s' t t' R _ hmove
  cases hmove with
  | invoke hstage | skip hstage =>
    rcases hstage with rfl | rfl <;> simp [Token.weight, Event.isCounted, Stage.isCounted]
  | _ => simp [Token.weight, Event.isCounted, Stage.isCounted]

/-- An operation is recorded as completed or cancelled when it is past the queue. -/
theorem settled_eq (hc : (lifecycle cfg).Reachable c) (x : Call) :
    c.shared.count (Event.isSettled x) =
      countTokens (fun t => t.call = x && t.stage.isSettled) c.tokens := by
  refine count_eq_countTokens _ _ (fun t ht => by simp [ht, Stage.isSettled]) ?_ hc
  intro s s' t t' R _ hmove
  cases hmove with
  | invoke hstage | skip hstage =>
    rcases hstage with rfl | rfl <;> simp [Token.weight, Event.isSettled, Stage.isSettled]
  | _ => simp [Token.weight, Event.isSettled, Stage.isSettled]

/-- 1 for a call that has been made. -/
def Core.called (n : ℕ) (s : Core) : ℕ := if n < s.nextCall then 1 else 0

/-- There is one operation for each call made. -/
theorem called_eq (hc : (lifecycle cfg).Reachable c) (n : ℕ) :
    countTokens (fun t => t.call.id = n) c.tokens = c.shared.called n := by
  have h := hc.conserved (fun _ => 0) (Core.called n) (Token.weight fun t => t.call.id = n) ?_ ?_ ?_
  · rw [← h, Nat.zero_add]
    rfl
  · rintro s rfl
    rfl
  · rintro s _ t ⟨rfl, hid, -⟩
    show 0 + (if decide (t.call.id = n) then 1 else 0) + (if n < s.nextCall then 1 else 0) =
      0 + if n < s.nextCall + 1 then 1 else 0
    simp only [hid, decide_eq_true_eq]
    split_ifs <;> omega
  · intro s s' t t' R _ hmove
    have hnext : s'.called n = s.called n := by
      cases hmove with
      | acquire =>
        simp only [Core.record, Core.acquireFromPool]
        split <;> rfl
      | push pushed => cases pushed <;> rfl
      | _ => rfl
    have hcall : t'.call = t.call := by cases hmove <;> rfl
    simp only [Token.weight, hnext, hcall]

/-- Nothing is taken off the log. -/
theorem Move.log_suffix {s s' : Core} {t t' : Token} (h : Move cfg s t s' t') :
    s.log <:+ s'.log := by
  cases h <;> simp

/-- An operation that a call is for is the only one. -/
theorem eq_of_call_eq (hc : (lifecycle cfg).Reachable c) {t u : Token} (ht : t ∈ c.tokens)
    (hu : u ∈ c.tokens) (hcall : t.call = u.call) : t = u := by
  -- two different operations would both count for the number of the call
  by_contra hne
  obtain ⟨R, hR⟩ := Multiset.exists_cons_of_mem ht
  rw [hR, Multiset.mem_cons] at hu
  obtain ⟨Q, rfl⟩ := Multiset.exists_cons_of_mem (hu.resolve_left (Ne.symm hne))
  have h := called_eq hc t.call.id
  rw [hR, countTokens_cons, countTokens_cons] at h
  simp only [Token.weight, hcall, Core.called, decide_true, if_true] at h
  split_ifs at h <;> omega

/-- The function passed to a call was invoked when the operation is in a stage past that. -/
theorem invoked_eq (hc : (lifecycle cfg).Reachable c) (x : Call) :
    c.shared.count (Event.isInvoked x) =
      countTokens (fun t => t.call = x && (x.hasCallback && t.stage.isInvoked)) c.tokens := by
  refine count_eq_countTokens _ _ (fun t ht => by simp [ht, Stage.isInvoked]) ?_ hc
  intro s s' t t' R hc hmove
  cases hmove with
  | @invoke y a stage cb hstage hcb =>
    -- what the context holds is the callback of the operation
    have hstored := callback_eq_of_handled hc hstage
    obtain ⟨hcall, hhas, -⟩ := Call.callback_eq_some (hstored.symm.trans hcb)
    rcases hstage with rfl | rfl <;>
      by_cases hy : y = x <;> simp [Token.weight, Event.isInvoked, Stage.isInvoked, hcall, hy] <;>
        exact hy ▸ hhas
  | @skip y a stage hstage hcb =>
    have hstored := callback_eq_of_handled hc hstage
    have hhas := Call.callback_eq_none (hstored.symm.trans hcb)
    rcases hstage with rfl | rfl <;>
      by_cases hy : y = x <;> simp [Token.weight, Stage.isInvoked, hy] <;> exact hy ▸ hhas
  | @injectInvoke y cb hinject hcb =>
    obtain ⟨rfl, hhas⟩ := Call.passed_eq_some hcb
    by_cases hy : y = x <;> simp [Token.weight, Event.isInvoked, Stage.isInvoked, hy]
    exact hy ▸ hhas
  | @injectSkip y hcb =>
    have hhas := Call.passed_eq_none hcb
    by_cases hy : y = x <;> simp [Token.weight, Stage.isInvoked, hy]
    exact hy ▸ hhas
  | _ => simp [Token.weight, Event.isInvoked, Stage.isInvoked]

/-- A callback is invoked with the arguments that the code has for the call. -/
theorem invoked_args (hc : (lifecycle cfg).Reachable c) :
    ∀ e ∈ c.shared.log, ∀ x args, e = .invoked x args → args = x.callbackArgs := by
  refine hc.shared_invariant (I := fun s => ∀ e ∈ s.log, ∀ x args, e = .invoked x args →
    args = x.callbackArgs) ?_ ?_ ?_
  · rintro s rfl e he
    cases he
  · rintro s _ t ⟨rfl, -⟩ h
    exact h
  · intro s s' t t' R hc h hmove
    cases hmove with
    | @invoke y a stage cb hstage hcb =>
      have hstored := callback_eq_of_handled hc hstage
      obtain ⟨hcall, -, hargs⟩ := Call.callback_eq_some (hstored.symm.trans hcb)
      -- the handlers pass 0 and 0, which a bound callback ignores
      refine List.forall_mem_cons.mpr ⟨?_, h⟩
      rintro x args he
      obtain ⟨rfl, rfl⟩ := Event.invoked.inj he
      rw [hargs, hcall]
    | @injectInvoke y cb hinject hcb =>
      obtain ⟨rfl, -⟩ := Call.passed_eq_some hcb
      refine List.forall_mem_cons.mpr ⟨?_, h⟩
      rintro x args he
      obtain ⟨rfl, rfl⟩ := Event.invoked.inj he
      simp [Call.callbackArgs, Call.func_of_inject hinject, Callback.arguments]
    | _ => simpa using h

/-- A callback is invoked after the entry of the operation was processed, or after the inject. -/
theorem settled_before_invoked (hc : (lifecycle cfg).Reachable c) :
    ∀ x args l, (.invoked x args :: l) <:+ c.shared.log → ∃ e ∈ l, Event.isSettled x e := by
  refine hc.shared_invariant (I := fun s => ∀ x args l, (.invoked x args :: l) <:+ s.log →
    ∃ e ∈ l, Event.isSettled x e) ?_ ?_ ?_
  · rintro s rfl x args l hl
    cases List.suffix_nil.mp hl
  · rintro s _ t ⟨rfl, -⟩ h
    exact h
  · intro s s' t t' R hc h hmove
    -- what moves on to its callback is recorded as settled
    have hsettled : t.stage.isSettled = true → ∃ e ∈ s.log, Event.isSettled t.call e := by
      intro hstage
      have hcount := settled_eq hc t.call
      have hpos := countTokens_pos (p := fun u => u.call = t.call && u.stage.isSettled)
        (Multiset.mem_cons_self t R) (by simp [hstage])
      rw [← hcount] at hpos
      exact List.countP_pos_iff.mp hpos
    cases hmove with
    | @invoke y a stage cb hstage hcb =>
      have hstored := callback_eq_of_handled hc hstage
      obtain ⟨hcall, -, -⟩ := Call.callback_eq_some (hstored.symm.trans hcb)
      rintro x args l hl
      rcases List.suffix_cons_iff.mp hl with heq | hl
      · obtain ⟨he, rfl⟩ := List.cons.inj heq
        obtain ⟨rfl, -⟩ := Event.invoked.inj he
        rw [hcall]
        rcases hstage with rfl | rfl <;> exact hsettled rfl
      · exact h x args l hl
    | @injectInvoke y cb hinject hcb =>
      obtain ⟨rfl, -⟩ := Call.passed_eq_some hcb
      rintro x args l hl
      rcases List.suffix_cons_iff.mp hl with heq | hl
      · obtain ⟨he, rfl⟩ := List.cons.inj heq
        obtain ⟨rfl, -⟩ := Event.invoked.inj he
        exact hsettled rfl
      · exact h x args l hl
    | _ =>
      -- another event is recorded, or none
      simpa [List.suffix_cons_iff] using h

/-- A running callback is one that was passed. -/
theorem hasCallback_of_running (hc : (lifecycle cfg).Reachable c) : ∀ t ∈ c.tokens,
    t.stage = .running ∨ t.stage = .injectRunning → t.call.hasCallback = true := by
  refine hc.forall_tokens (P := fun _ t => t.stage = .running ∨ t.stage = .injectRunning →
    t.call.hasCallback = true) ?_ ?_ ?_ ?_
  · rintro s _ t ⟨-, -, -, hstage, -⟩ h
    simp [hstage] at h
  · intro s s' t u _ hu
    exact hu
  · intro s s' t t' R hc ht hmove
    cases hmove with
    | @invoke y a stage cb hstage hcb =>
      have hstored := callback_eq_of_handled hc hstage
      exact fun _ => (Call.callback_eq_some (hstored.symm.trans hcb)).2.1
    | injectInvoke hinject hcb => exact fun _ => (Call.passed_eq_some hcb).2
    | lose => exact ht
    | _ => simp
  · intro s s' t t' u R _ _ hu _
    exact hu

/-- The function passed to a call has returned when the operation is in a stage past that. -/
theorem finished_eq (hc : (lifecycle cfg).Reachable c) (x : Call) :
    c.shared.count (Event.isFinished x) =
      countTokens (fun t => t.call = x && (x.hasCallback && t.stage.isFinished)) c.tokens := by
  refine count_eq_countTokens _ _ (fun t ht => by simp [ht, Stage.isFinished]) ?_ hc
  intro s s' t t' R hc hmove
  have hrunning := hasCallback_of_running hc t (Multiset.mem_cons_self t R)
  cases hmove with
  | @skip y a stage hstage hcb =>
    -- without a callback nothing is due, so skipping it changes no count
    have hstored := callback_eq_of_handled hc hstage
    have hhas := Call.callback_eq_none (hstored.symm.trans hcb)
    rcases hstage with rfl | rfl <;>
      by_cases hy : y = x <;> simp [Token.weight, Stage.isFinished, hy] <;> exact hy ▸ hhas
  | invoke hstage =>
    rcases hstage with rfl | rfl <;> simp [Token.weight, Event.isFinished, Stage.isFinished]
  | @injectSkip y hcb =>
    have hhas := Call.passed_eq_none hcb
    by_cases hy : y = x <;> simp [Token.weight, Stage.isFinished, hy]
    exact hy ▸ hhas
  | @injectReturn y =>
    have hhas : y.hasCallback = true := hrunning (.inr rfl)
    by_cases hy : y = x <;> simp [Token.weight, Event.isFinished, Stage.isFinished, hy]
    exact hy ▸ hhas
  | @callbackReturn y a =>
    -- the step that adds the entry moves the operation past its callback
    have hhas : y.hasCallback = true := hrunning (.inl rfl)
    by_cases hy : y = x <;> simp [Token.weight, Event.isFinished, Stage.isFinished, hy]
    exact hy ▸ hhas
  | _ => simp [Token.weight, Event.isFinished, Stage.isFinished]

/-- What a call records in one of its stages it records at most once. -/
theorem countTokens_call_le_one (hc : (lifecycle cfg).Reachable c) (x : Call)
    (p : Token → Bool) : countTokens (fun t => t.call = x && p t) c.tokens ≤ 1 := by
  have hle : countTokens (fun t => t.call = x && p t) c.tokens ≤
      countTokens (fun t => t.call.id = x.id) c.tokens := by
    refine countTokens_mono (fun t ht => ?_) _
    simp only [Bool.and_eq_true, decide_eq_true_eq] at ht ⊢
    rw [ht.1]
  rw [called_eq hc, Core.called] at hle
  split_ifs at hle <;> omega

/-- What a call has recorded can be read off the stage of its operation. -/
theorem countTokens_call_pos_iff (hc : (lifecycle cfg).Reachable c) {t : Token} (ht : t ∈ c.tokens)
    (p : Token → Bool) : 0 < countTokens (fun u => u.call = t.call && p u) c.tokens ↔ p t := by
  constructor
  · intro hpos
    obtain ⟨u, hu, hp⟩ := exists_of_countTokens_pos hpos
    simp only [Bool.and_eq_true, decide_eq_true_eq] at hp
    rw [eq_of_call_eq hc ht hu hp.1.symm]
    exact hp.2
  · intro hp
    exact countTokens_pos ht (by simp [hp])

theorem counted_mem_iff (hc : (lifecycle cfg).Reachable c) {t : Token} (ht : t ∈ c.tokens) :
    .counted t.call ∈ c.shared.log ↔ t.stage.isCounted := by
  rw [← countTokens_call_pos_iff hc ht fun u => u.stage.isCounted, ← counted_eq hc]
  exact Core.count_isCounted_pos.symm

theorem finished_mem_iff (hc : (lifecycle cfg).Reachable c) {t : Token} (ht : t ∈ c.tokens)
    (hcb : t.call.hasCallback = true) : .finished t.call ∈ c.shared.log ↔ t.stage.isFinished := by
  have h := countTokens_call_pos_iff hc ht fun u => t.call.hasCallback && u.stage.isFinished
  rw [← finished_eq hc] at h
  rw [← Core.count_isFinished_pos, h, hcb, Bool.true_and]

/-- A call that is counted has an operation. -/
theorem exists_of_counted (hc : (lifecycle cfg).Reachable c) {x : Call}
    (h : .counted x ∈ c.shared.log) : ∃ t ∈ c.tokens, t.call = x ∧ t.stage.isCounted := by
  have hpos := Core.count_isCounted_pos.mpr h
  rw [counted_eq hc] at hpos
  obtain ⟨t, ht, hp⟩ := exists_of_countTokens_pos hpos
  exact ⟨t, ht, by simpa using hp⟩

/-! ### The counters -/

def Event.isCountedOf (k : Kind) : Event → Bool
  | .counted y => y.kind = k
  | _ => false

def Event.isCompletedOf (k : Kind) : Event → Bool
  | .completed y => y.kind = k
  | _ => false

def Event.isCancelledOf (k : Kind) : Event → Bool
  | .cancelled y => y.kind = k
  | _ => false

/-- An operation whose posting has started, by its counter, and whose entry is not processed. -/
def Token.isOutstanding (k : Kind) (t : Token) : Bool :=
  t.call.kind = k && (t.stage.isCounted && !t.stage.isSettled)

/-- A counter of 32 bits that holds how often it was incremented does so after one more time. -/
theorem update_ofNat {counter : Kind → BitVec 32} {k j : Kind} {n : ℕ}
    (h : counter k = BitVec.ofNat 32 n) :
    Function.update counter j (counter j + 1#32) k =
      BitVec.ofNat 32 (n + if j = k then 1 else 0) := by
  by_cases hjk : j = k
  · subst hjk
    rw [Function.update_self, h, if_pos rfl, BitVec.ofNat_add]
  · rw [Function.update_of_ne (Ne.symm hjk), h, if_neg hjk, Nat.add_zero]

/-- The counters hold, modulo `2 ^ 32`, how often they were incremented. -/
theorem counters_eq (hc : (lifecycle cfg).Reachable c) (k : Kind) :
    c.shared.posted k = BitVec.ofNat 32 (c.shared.count (Event.isCountedOf k)) ∧
      c.shared.complete k = BitVec.ofNat 32 (c.shared.count (Event.isCompletedOf k)) := by
  refine hc.shared_invariant (I := fun s =>
    s.posted k = BitVec.ofNat 32 (s.count (Event.isCountedOf k)) ∧
      s.complete k = BitVec.ofNat 32 (s.count (Event.isCompletedOf k))) ?_ ?_ ?_
  · rintro s rfl
    exact ⟨rfl, rfl⟩
  · rintro s _ t ⟨rfl, -⟩ h
    exact h
  · rintro s s' t t' R - ⟨hposted, hcomplete⟩ hmove
    -- a counter is incremented where its event is logged, and nowhere else
    cases hmove with
    | @count x =>
      refine ⟨(update_ofNat (j := x.kind) hposted).trans ?_, hcomplete.trans ?_⟩ <;>
        simp [Event.isCountedOf, Event.isCompletedOf]
    | @complete x | @injectComplete x =>
      refine ⟨hposted.trans ?_, (update_ofNat (j := x.kind) hcomplete).trans ?_⟩ <;>
        simp [Event.isCountedOf, Event.isCompletedOf]
    | acquire =>
      have hp : s.acquireFromPool.2.posted = s.posted := by
        unfold Core.acquireFromPool
        split <;> rfl
      have hq : s.acquireFromPool.2.complete = s.complete := by
        unfold Core.acquireFromPool
        split <;> rfl
      refine ⟨(congrFun hp k).trans (hposted.trans ?_),
        (congrFun hq k).trans (hcomplete.trans ?_)⟩ <;>
        simp [Event.isCountedOf, Event.isCompletedOf]
    | push pushed => cases pushed <;> exact ⟨hposted, hcomplete⟩
    | _ =>
      refine ⟨hposted.trans ?_, hcomplete.trans ?_⟩ <;>
        simp [Event.isCountedOf, Event.isCompletedOf]

/-- What was counted as posted is counted as complete, was cancelled, or is outstanding. -/
theorem accounting_eq (hc : (lifecycle cfg).Reachable c) (k : Kind) :
    c.shared.count (Event.isCompletedOf k) + c.shared.count (Event.isCancelledOf k) +
        countTokens (Token.isOutstanding k) c.tokens =
      c.shared.count (Event.isCountedOf k) := by
  refine hc.conserved (fun s => s.count (Event.isCompletedOf k) +
    s.count (Event.isCancelledOf k))
    (Core.count (Event.isCountedOf k)) (Token.weight (Token.isOutstanding k)) ?_ ?_ ?_
  · rintro s rfl
    rfl
  · rintro s _ t ⟨rfl, -, -, hstage, -⟩
    simp [Token.weight, Token.isOutstanding, hstage, Stage.isCounted, Core.begin, Core.count]
  · intro s s' t t' R _ hmove
    cases hmove with
    | count | complete | injectComplete | cancel =>
      -- the counters change on both sides, or one term passes the operation on to another
      simp [Token.weight, Token.isOutstanding, Event.isCountedOf, Event.isCompletedOf,
        Event.isCancelledOf, Stage.isCounted, Stage.isSettled]
      omega
    | invoke hstage | skip hstage =>
      rcases hstage with rfl | rfl <;>
        simp [Token.weight, Token.isOutstanding, Event.isCountedOf, Event.isCompletedOf,
          Event.isCancelledOf, Stage.isCounted, Stage.isSettled]
    | _ =>
      simp [Token.weight, Token.isOutstanding, Event.isCountedOf, Event.isCompletedOf,
        Event.isCancelledOf, Stage.isCounted, Stage.isSettled]

end Counting

end LibFatbat
