import LibFatbat.Communicator.Frames

/-!
# The threads refine the life of their operations

`reachable_lifecycle`: in every configuration that the threads of the communicator reach, the
operations there are, in the hands of the threads, in flight, or over, are a collection that the
`lifecycle` reaches. One step of a thread is any number of moves of the operations in its hands
(`FrameStep.simulates`, `CommStep.simulates`): one for most steps, none when only a program
counter changes, and one for each operation lost when an exception unwinds the stack.
-/

open Concurrent

namespace LibFatbat

variable {cfg : Setup} {i : ℕ} {s s' : Shared} {f : Frame} {fs : List Frame}

/-- The operations that no thread has in its hands. -/
def Shared.tokens (s : Shared) : Multiset Token := s.inflight.map Op.token + s.retired

def stackTokens (stack : List Frame) : Multiset Token := (stack.map Frame.tokens).sum

@[simp]
theorem stackTokens_nil : stackTokens [] = 0 := rfl

@[simp]
theorem stackTokens_cons (f : Frame) (stack : List Frame) :
    stackTokens (f :: stack) = f.tokens + stackTokens stack := rfl

@[simp]
theorem stackTokens_append (fs stack : List Frame) :
    stackTokens (fs ++ stack) = stackTokens fs + stackTokens stack := by
  simp [stackTokens]

theorem mem_stackTokens {t : Token} {stack : List Frame} :
    t ∈ stackTokens stack ↔ ∃ f ∈ stack, t ∈ f.tokens := by
  induction stack with
  | nil => simp
  | cons f stack ih => simp [ih]

/-- An operation in the hands of a thread moves. -/
theorem steps_held {s s' : Core} {t t' : Token} (h : Move cfg s t s' t') (A R : Multiset Token) :
    (lifecycle cfg).Steps ⟨s, A + {t} + R⟩ ⟨s', A + {t'} + R⟩ :=
  .of_move (R := A + R) h (by rw [← Multiset.singleton_add]; abel)
    (by rw [← Multiset.singleton_add]; abel)

/-- An operation in the hands of a thread moves, and leaves them. -/
theorem steps_given {s s' : Core} {t t' : Token} (h : Move cfg s t s' t') (A R : Multiset Token) :
    (lifecycle cfg).Steps ⟨s, A + {t} + R⟩ ⟨s', t' ::ₘ A + 0 + R⟩ :=
  .of_move (R := A + R) h (by rw [← Multiset.singleton_add]; abel)
    (by rw [← Multiset.singleton_add, ← Multiset.singleton_add]; abel)

/-- An operation moves, and goes from a batch to a handler. -/
theorem steps_taken {s s' : Core} {t t' : Token} {B B' : Multiset Token} (h : Move cfg s t s' t')
    (hB : B = t ::ₘ B') (A R : Multiset Token) :
    (lifecycle cfg).Steps ⟨s, A + B + R⟩ ⟨s', A + ({t'} + (B' + 0)) + R⟩ :=
  .of_move (R := A + B' + R) h
    (by rw [hB, ← Multiset.singleton_add, ← Multiset.singleton_add]; abel)
    (by rw [← Multiset.singleton_add]; abel)

theorem steps_of_eq {s : Core} {A A' : Multiset Token} (h : A = A') :
    (lifecycle cfg).Steps ⟨s, A⟩ ⟨s, A'⟩ := h ▸ .refl

theorem Shared.tokens_retire (s : Shared) (t : Token) :
    (s.retire t).tokens = t ::ₘ s.tokens := Multiset.add_cons ..

theorem Shared.tokens_accept (s : Shared) (x : Call) (c : ℕ) (request : FiRequest) :
    (s.accept x c request).tokens = ⟨x, some c, .inflight, false⟩ ::ₘ s.tokens := by
  simp [tokens, accept, Op.token]

/-! ### What a posting function works on -/

theorem Frame.tokens_entry (x : Call) :
    (Frame.posting x x.func.entry).tokens = {⟨x, none, .posting false false, false⟩} := by
  cases hfunc : x.func <;>
    simp [Frame.tokens, Func.entry, Func.countsFirst, PostPc.tokens, hfunc]

theorem Frame.tokens_afterCount {x : Call} {ctx : Option ℕ}
    (hpath : (Frame.posting x (.count ctx)).OnPath cfg) :
    (Frame.posting x (x.afterCount cfg ctx)).tokens =
      {⟨x, ctx, .posting true ctx.isSome, false⟩} := by
  cases ctx with
  | none =>
    have hfirst : x.func.countsFirst = true := hpath
    cases hinject : x.inject cfg <;>
      simp [Frame.tokens, Call.afterCount, hinject, PostPc.tokens, hfirst]
  | some c =>
    show (Frame.posting x (if x.func = .writeDataDelivery then .deliveryTest c
      else .execute (some c))).tokens = _
    split <;> rfl

theorem Frame.tokens_afterSetCallback (x : Call) (c : ℕ) :
    (Frame.posting x (x.afterSetCallback c)).tokens =
      {⟨x, some c, .posting x.func.countsFirst true, false⟩} := by
  unfold Call.afterSetCallback
  cases x.func.countsFirst <;> rfl

/-- A thread calls a posting function. -/
theorem steps_call {x : Call} (hid : x.id = s.core.nextCall) (f : Frame) (R : Multiset Token) :
    (lifecycle cfg).Steps ⟨s.core, s.tokens + f.tokens + R⟩
      ⟨s.core.begin, s.tokens + stackTokens [.posting x x.func.entry, f] + R⟩ := by
  have hadd : s.tokens + stackTokens [.posting x x.func.entry, f] + R =
      ⟨x, none, .posting false false, false⟩ ::ₘ (s.tokens + f.tokens + R) := by
    rw [stackTokens_cons, stackTokens_cons, stackTokens_nil, Frame.tokens_entry,
      ← Multiset.singleton_add]
    abel
  rw [hadd]
  exact .single (.create ⟨rfl, hid, rfl, rfl, rfl⟩)

/-! ### What a poll function works on -/

/-- The operations of a batch go from the queue to the hands of the thread. -/
theorem steps_read {ops rest : Multiset Op} {pc pc' : PollPc} {mutex mutex' : Option ℕ}
    (hops : s.inflight = ops + rest) (hpc : (Frame.polling pc).tokens = 0)
    (hpc' : (Frame.polling pc').tokens = ops.map Op.token) (R : Multiset Token) :
    (lifecycle cfg).Steps ⟨s.core, s.tokens + (Frame.polling pc).tokens + R⟩
      ⟨s.core, Shared.tokens { s with inflight := rest, sendMutex := mutex, recvMutex := mutex' } +
        stackTokens [.polling pc'] + R⟩ := by
  refine steps_of_eq ?_
  rw [hpc, stackTokens_cons, stackTokens_nil, hpc']
  simp only [Shared.tokens, hops, Multiset.map_add, add_zero]
  abel

/-- A receive that is reported as cancelled goes from the queue to `handle_cancelled`. -/
theorem steps_cancel {o : Op} {rest : Multiset Op} {retry : Bool} (hops : s.inflight = o ::ₘ rest)
    (R : Multiset Token) :
    (lifecycle cfg).Steps ⟨s.core, s.tokens + (Frame.polling (.readRx retry)).tokens + R⟩
      ⟨s.core.record (.cancelled o.call),
        Shared.tokens { s with core := s.core.record (.cancelled o.call), inflight := rest } +
          stackTokens [.handling o.call o.ctx (.invokeCb true), .polling (.rxCancelled retry)] +
            R⟩ := by
  have hqueue : s.tokens = o.token ::ₘ (rest.map Op.token + s.retired) := by
    simp [Shared.tokens, hops]
  refine .of_move (R := rest.map Op.token + s.retired + R) (.cancel (x := o.call) (c := o.ctx))
    ?_ ?_
  · rw [hqueue]
    simp [Frame.tokens, Op.token]
  · simp [Shared.tokens, Frame.tokens, HandlerPc.stage, ← Multiset.singleton_add]
    abel

theorem Frame.tokens_txBatch_cons (e : TxEntry) (entries : List TxEntry) (n : ℕ) :
    (Frame.polling (.txBatch (e :: entries) n)).tokens =
      e.op.token ::ₘ (TxEntry.ops entries).map Op.token := by
  simp [Frame.tokens, TxEntry.ops]

theorem Frame.tokens_rxBatch_cons {op : Op} {flags : BitVec 64} (receive : op.call.kind = .recv)
    (documented : Kind.recv.Documented flags) (entries : List RxEntry) (n : ℕ) (retry : Bool) :
    (Frame.polling (.rxBatch (.recv op flags receive documented :: entries) n retry)).tokens =
      op.token ::ₘ (RxEntry.ops entries).map Op.token := by
  simp [Frame.tokens, RxEntry.ops, RxEntry.op?]

/-! ### Steps of a frame -/

/-- A step on the running frame is a run of the operations: those in the hands of other frames
are in `R`. -/
theorem FrameStep.simulates (h : FrameStep cfg i s f s' fs) (hf : f.OnPath cfg)
    (R : Multiset Token) :
    (lifecycle cfg).Steps ⟨s.core, s.tokens + f.tokens + R⟩
      ⟨s'.core, s'.tokens + stackTokens fs + R⟩ := by
  cases h with
  | @call _ x huser hid => exact steps_call hid f R
  | @count x ctx =>
    rw [stackTokens_cons, stackTokens_nil, add_zero, Frame.tokens_afterCount hf]
    exact steps_held .count s.tokens R
  | @setCallback x c =>
    rw [stackTokens_cons, stackTokens_nil, add_zero, Frame.tokens_afterSetCallback]
    exact steps_held .arm s.tokens R
  | acquire => exact steps_held .acquire s.tokens R
  | @deliveryTest x c =>
    cases hflag : s.deliveryCompleteSupported <;> exact .refl
  | callbackReturn => exact steps_held .callbackReturn s.tokens R
  | injectReturn =>
    rw [Shared.tokens_retire]
    exact steps_given .injectReturn s.tokens R
  | @executeAccepted x c | @writemsgAccepted x c =>
    rw [Shared.tokens_accept]
    exact steps_given .accept s.tokens R
  | injectAccepted => exact steps_held (.inject hf) s.tokens R
  | noFallback =>
    -- an operation that is not posted would be lost
    rw [Shared.tokens_retire]
    exact steps_given .lose s.tokens R
  | @injectComplete x =>
    -- only `send` injects, so `sends_complete_` is the counter of its kind
    have hkind : x.kind = .send := congrArg Func.kind (Call.func_of_inject hf)
    rw [← hkind]
    exact steps_held .injectComplete s.tokens R
  | injectInvoke hcb => exact steps_held (.injectInvoke hf hcb) s.tokens R
  | injectSkip hcb =>
    rw [Shared.tokens_retire]
    exact steps_given (.injectSkip hcb) s.tokens R
  | txEntries entries rest hlen hops => exact steps_read hops rfl rfl R
  | @txEntry e entries n kind hflags =>
    -- the counter incremented is the one for the kind of the operation
    obtain rfl : e.op.call.kind = kind :=
      Option.some.inj ((classifyTx_eq e.transmit e.documented).symm.trans hflags)
    exact steps_taken .complete (Frame.tokens_txBatch_cons e entries n) s.tokens R
  | rxEntries entries rest hlen hops => exact steps_read hops rfl rfl R
  | rxCancel rest hkind hops => exact steps_cancel hops R
  | @rxEntry op flags receive documented entries n retry kind hflags =>
    obtain rfl : Kind.recv = kind := by
      simpa [classifyRx_eq documented] using hflags
    have hbatch := Frame.tokens_rxBatch_cons receive documented entries n retry
    rw [← receive]
    exact steps_taken .complete hbatch s.tokens R
  | @rxRemoteData flags entries =>
    have hbatch : RxEntry.ops (.remote flags :: entries) = RxEntry.ops entries := rfl
    refine steps_of_eq ?_
    simp only [Frame.tokens, hbatch, stackTokens_cons, stackTokens_nil, add_zero]
    rfl
  | @invokeCb x c cancelled cb hcb =>
    cases cancelled
    · exact steps_held (.invoke (.inl rfl) hcb) s.tokens R
    · exact steps_held (.invoke (.inr rfl) hcb) s.tokens R
  | @skipCb x c cancelled hcb =>
    cases cancelled
    · exact steps_held (.skip (.inl rfl) hcb) s.tokens R
    · exact steps_held (.skip (.inr rfl) hcb) s.tokens R
  | clear => exact steps_held .clear s.tokens R
  | push pushed =>
    rw [Shared.tokens_retire]
    exact steps_given (.push pushed) s.tokens R
  | _ =>
    -- no operation changes hands
    exact steps_of_eq (by
      simp [Frame.tokens, PostPc.tokens, Shared.tokens, TxEntry.ops, RxEntry.ops])

/-- A poll function has operations in its hands that it has read and not handled. -/
theorem PollPc.exists_op_of_mem {pc : PollPc} {t : Token} (ht : t ∈ (Frame.polling pc).tokens) :
    ∃ o : Op, t = o.token := by
  cases pc with
  | txBatch | rxBatch | remoteData =>
    simp only [Frame.tokens, Multiset.mem_map] at ht
    obtain ⟨o, -, rfl⟩ := ht
    exact ⟨o, rfl⟩
  | _ => cases ht

/-- The operations that a frame has in its hands are not lost. -/
theorem Frame.not_lost (f : Frame) : ∀ t ∈ f.tokens, t.lost = false := by
  intro t ht
  cases f with
  | main | waiting pc => cases ht
  | posting x pc =>
    cases pc with
    | ret => cases ht
    | _ => rw [Multiset.mem_singleton.mp ht]
  | polling pc =>
    obtain ⟨o, rfl⟩ := PollPc.exists_op_of_mem ht
    rfl
  | handling x c pc => rw [Multiset.mem_singleton.mp ht]

/-- Operations are lost one after the other. -/
theorem steps_lose {s : Core} {A : Multiset Token} (hA : ∀ t ∈ A, t.lost = false)
    (R : Multiset Token) :
    (lifecycle cfg).Steps ⟨s, A + R⟩ ⟨s, A.map (fun t => { t with lost := true }) + R⟩ := by
  induction A using Multiset.induction_on generalizing R with
  | empty => exact .refl
  | cons t A ih =>
    have hlost : t.lost = false := hA t (Multiset.mem_cons_self t A)
    -- the first one, and then the others by induction
    have hmove : Move cfg s t s { t with lost := true } := by
      obtain ⟨x, ctx, stage, lost⟩ := t
      obtain rfl : lost = false := hlost
      exact .lose
    have hfirst : (lifecycle cfg).Steps ⟨s, t ::ₘ A + R⟩ ⟨s, { t with lost := true } ::ₘ A + R⟩ :=
      .of_move (R := A + R) hmove (Multiset.cons_add ..) (Multiset.cons_add ..)
    refine hfirst.trans ?_
    have hrest := ih (fun u hu => hA u (Multiset.mem_cons_of_mem hu))
      ({ t with lost := true } ::ₘ R)
    simpa using hrest

/-- Operations in the hands of threads are not lost. -/
theorem not_lost_of_mem_stackTokens (stack : List Frame) :
    ∀ t ∈ stackTokens stack, t.lost = false := by
  intro t ht
  obtain ⟨f, -, htf⟩ := mem_stackTokens.mp ht
  exact f.not_lost t htf

theorem Shared.tokens_drop (s : Shared) (frames : List Frame) :
    (s.drop frames).tokens =
      (stackTokens frames).map (fun t => { t with lost := true }) + s.tokens := by
  simp only [tokens, drop, stackTokens]
  abel

/-- A step of a thread is a run of the operations: those that it leaves alone are `R`. -/
theorem CommStep.simulates {stack stack' : List Frame} (h : CommStep cfg i s stack s' stack')
    (hpath : ∀ f ∈ stack, f.OnPath cfg) (R : Multiset Token) :
    (lifecycle cfg).Steps ⟨s.core, s.tokens + stackTokens stack + R⟩
      ⟨s'.core, s'.tokens + stackTokens stack' + R⟩ := by
  cases h with
  | run h =>
    obtain ⟨h⟩ := h
    rename_i f fs rest
    have hstep := h.simulates (hpath f (List.mem_cons_self ..)) (stackTokens rest + R)
    rw [stackTokens_cons, stackTokens_append]
    simpa only [add_assoc] using hstep
  | @unwind f g dropped rest hthrow hcatch =>
    have hstart : s.tokens + stackTokens (f :: dropped ++ g :: rest) + R =
        stackTokens (f :: dropped) + (s.tokens + stackTokens (g :: rest) + R) := by
      rw [stackTokens_append]
      abel
    have hend : (s.drop (f :: dropped)).tokens + stackTokens (g :: rest) + R =
        (stackTokens (f :: dropped)).map (fun t => { t with lost := true }) +
          (s.tokens + stackTokens (g :: rest) + R) := by
      rw [Shared.tokens_drop]
      abel
    rw [hstart, hend]
    exact steps_lose (not_lost_of_mem_stackTokens _) _

section Runs

variable {c : Config Shared (List Frame)}

/-- The operations of a configuration. -/
def tokens (c : Config Shared (List Frame)) : Multiset Token :=
  c.shared.tokens + (c.threads.map stackTokens).sum

/-- An operation is in flight, retired, or in the hands of a frame. -/
theorem mem_tokens {t : Token} (ht : t ∈ tokens c) :
    t ∈ c.shared.inflight.map Op.token ∨ t ∈ c.shared.retired ∨
      ∃ stack ∈ c.threads, ∃ f ∈ stack, t ∈ f.tokens := by
  rcases Multiset.mem_add.mp ht with ht | ht
  · rcases Multiset.mem_add.mp ht with ht | ht
    · exact .inl ht
    · exact .inr (.inl ht)
  · refine .inr (.inr ?_)
    generalize c.threads = threads at ht ⊢
    induction threads with
    | nil => simp at ht
    | cons stack threads ih =>
      rw [List.map_cons, List.sum_cons, Multiset.mem_add] at ht
      rcases ht with ht | ht
      · exact ⟨stack, List.mem_cons_self .., mem_stackTokens.mp ht⟩
      · obtain ⟨stack', hstack, h⟩ := ih ht
        exact ⟨stack', List.mem_cons_of_mem _ hstack, h⟩

theorem mem_tokens_of_frame {t : Token} {j : ℕ} {stack : List Frame} {f : Frame}
    (hget : c.threads[j]? = some stack) (hf : f ∈ stack) (ht : t ∈ f.tokens) : t ∈ tokens c := by
  refine Multiset.mem_add.mpr (.inr ?_)
  have hstack : t ∈ stackTokens stack := mem_stackTokens.mpr ⟨f, hf, ht⟩
  have hle : stackTokens stack ≤ (c.threads.map stackTokens).sum :=
    List.single_le_sum (fun _ _ => Multiset.zero_le _) _
      (List.mem_map_of_mem (List.mem_of_getElem? hget))
  exact Multiset.mem_of_le hle hstack

/-- What the threads do to the operations is what the operations may do. -/
theorem reachable_lifecycle (hc : (communicator cfg).Reachable c) :
    (lifecycle cfg).Reachable ⟨c.shared.core, tokens c⟩ := by
  refine hc.simulates Shared.core Shared.tokens stackTokens ?_ ?_
  · rintro c ⟨hshared, hstacks⟩
    refine ⟨by rw [hshared]; rfl, by rw [hshared]; rfl, ?_⟩
    have hzero : ∀ held ∈ c.threads.map stackTokens, held = 0 := by
      intro held hheld
      obtain ⟨stack, hstack, rfl⟩ := List.mem_map.mp hheld
      rw [hstacks stack hstack]
      rfl
    exact List.sum_eq_zero hzero
  · intro c j stack s' stack' hc hget h R
    exact CommStep.simulates h (onPath_of_reachable hc j stack hget) R

end Runs

end LibFatbat
