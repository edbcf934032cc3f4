import LibFatbat.Controller.Polling
import LibFatbat.Lists.Parts

/-!
# Callbacks that throw

The polling functions read a batch of entries from a completion queue, which removes them from it,
and handle them one after the other. A handler of `operation_context` invokes the callback of the
operation, then gives the context back to the pool. When the callback throws, the exception leaves
the handler and the loop over the batch; nothing catches it.

Main result: `lost_iff_throws`, for any run of arrivals and polls. The rest of a batch in which a
callback throws is lost, and so is the context of the operation whose callback it was.
-/

namespace LibFatbat

/-! ### Handlers and their callbacks -/

/-- What is called when an operation completes, or when remote data arrives. -/
inductive UserCallback
  /-- There is none. -/
  | unset
  | returns
  | throws
  deriving DecidableEq

/-- An entry of either queue that is handled, not terminated on. -/
def CqEntry.Handled (queue : Queue) (e : CqEntry) : Prop :=
  match queue with
  | .tx => e.SendHandled
  | .rx => e.RecvHandled

/-- An entry of a completion queue, with the callback that its handling leads to: `m_callback` of
its context, or for remote data `remote_cq_data_callback_`. -/
structure Completion where
  queue : Queue
  entry : CqEntry
  callback : UserCallback
  handled : entry.Handled queue

namespace Completion

/-- The handlers that are run. -/
def ran (c : Completion) : List Ran :=
  match c.queue with
  | .tx => c.entry.sendRan
  | .rx => c.entry.recvRan

/-- The contexts that are in use until they are given back. -/
def contexts (c : Completion) : List ℕ := c.ran.map Ran.context

/-- Whether handling it throws. A write without a context has no callback. -/
def throws (c : Completion) : Bool :=
  c.callback = .throws && (c.queue = .rx || c.entry.opContext.isSome)

end Completion

/-- What polling changes, with the pool. -/
structure DispatchState extends PollState where
  /-- The contexts given to `recycle`, in order. -/
  recycled : List ℕ
  /-- The completions that the loops have come to, in order. -/
  dispatched : List Completion

/-- The state of a fresh controller. -/
def DispatchState.start : DispatchState := ⟨.start, [], []⟩

/-- The ways in which polling ends other than by returning, with the exception of a callback. -/
inductive Escape
  | stop (stop : Stop)
  | callback
  deriving DecidableEq

/-- Code that polls, with callbacks. -/
abbrev Dispatch := EStateM Escape DispatchState

namespace Dispatch

/-- The increment of a complete counter. -/
def countComplete (kind : Kind) : Dispatch Unit :=
  modify fun s =>
    { s with complete := Function.update s.complete kind (s.complete kind + 1#32) }

/-- `invoke_cb`; `handle_remote_cq_data_completion_impl` calls its callback likewise. -/
def invokeCb : UserCallback → Dispatch Unit
  | .unset | .returns => pure ()
  | .throws => throw .callback

/-- `recycle`. -/
def recycle (c : ℕ) : Dispatch Unit :=
  modify fun s => { s with recycled := s.recycled ++ [c] }

/-- A call of a handler of `operation_context`. -/
def runHandler (queue : Queue) (handler : Handler) (callback : UserCallback) :
    Option ℕ → Dispatch ℤ
  | none => throw (.stop .nullContext)
  | some c => do
    modify fun s => { s with ran := s.ran ++ [⟨queue, handler, c⟩] }
    invokeCb callback
    recycle c
    return 1

/-- The body of the loop of `poll_send_queue_default`. -/
def sendEntry (e : CqEntry) (callback : UserCallback) : Dispatch ℤ :=
  match classifyTx e.flags with
  | some .send => do
    countComplete .send
    runHandler .tx .taggedSend callback e.opContext
  | some .read => do
    countComplete .read
    runHandler .tx .rmaRead callback e.opContext
  | some .write => do
    countComplete .write
    match e.opContext with
    | none => return 0
    | some c => runHandler .tx .rmaWrite callback (some c)
  | some .recv | none => throw (.stop .terminate)

/-- The body of the loop of `poll_recv_queue_default`. -/
def recvEntry (e : CqEntry) (callback : UserCallback) : Dispatch ℤ :=
  match classifyRx e.flags with
  | some (some _) => do
    countComplete .recv
    runHandler .rx .taggedRecv callback e.opContext
  | some none => do
    modify fun s => { s with remoteCqDataReceived := s.remoteCqDataReceived + 1#32
                             remoteData := s.remoteData ++ [e.data] }
    invokeCb callback
    return 0
  | none => throw (.stop .terminate)

/-- The body of either loop. -/
def entry (c : Completion) : Dispatch ℤ :=
  match c.queue with
  | .tx => sendEntry c.entry c.callback
  | .rx => recvEntry c.entry c.callback

/-- The loop over the entries of a batch. -/
def processEntries : List Completion → ℤ → Dispatch ℤ
  | [], processed => return processed
  | c :: cs, processed => do
    modify fun s => { s with dispatched := s.dispatched ++ [c] }
    let n ← entry c
    processEntries cs (processed + n)

/-! ### What an entry does -/

/-- Handling an entry whose callback does not throw returns, with its contexts given back. -/
def Finishes (x : Dispatch ℤ) (contexts : List ℕ) (s : DispatchState) : Prop :=
  ∃ n t, x s = .ok n t ∧ t.recycled = s.recycled ++ contexts ∧ t.dispatched = s.dispatched

/-- Handling an entry whose callback throws ends in the exception, with no context given back. -/
def Throws (x : Dispatch ℤ) (s : DispatchState) : Prop :=
  ∃ t, x s = .error .callback t ∧ t.recycled = s.recycled ∧ t.dispatched = s.dispatched

theorem runHandler_finishes (queue : Queue) (handler : Handler) {callback : UserCallback}
    (hcallback : callback ≠ .throws) (c : ℕ) (s : DispatchState) :
    Finishes (runHandler queue handler callback (some c)) [c] s := by
  cases callback with
  | unset => exact ⟨_, _, rfl, rfl, rfl⟩
  | returns => exact ⟨_, _, rfl, rfl, rfl⟩
  | throws => exact absurd rfl hcallback

theorem runHandler_throws (queue : Queue) (handler : Handler) (c : ℕ) (s : DispatchState) :
    Throws (runHandler queue handler .throws (some c)) s :=
  ⟨_, rfl, rfl, rfl⟩

/-- What `x` does after a completion is counted it does altogether. -/
theorem Finishes.countComplete {kind : Kind} {x : Dispatch ℤ} {contexts : List ℕ}
    (h : ∀ s, Finishes x contexts s) (s : DispatchState) :
    Finishes (do Dispatch.countComplete kind; x) contexts s := h _

theorem Throws.countComplete {kind : Kind} {x : Dispatch ℤ} (h : ∀ s, Throws x s)
    (s : DispatchState) : Throws (do Dispatch.countComplete kind; x) s := h _

/-- The handler of a completion that is counted and comes with a context. -/
theorem handled_spec (queue : Queue) (handler : Handler) (kind : Kind) (callback : UserCallback)
    (c : ℕ) (s : DispatchState) :
    (callback ≠ .throws →
      Finishes (do Dispatch.countComplete kind; runHandler queue handler callback (some c))
        [c] s) ∧
    (callback = .throws →
      Throws (do Dispatch.countComplete kind; runHandler queue handler callback (some c)) s) := by
  refine ⟨fun hcallback => ?_, ?_⟩
  · exact Finishes.countComplete (runHandler_finishes queue handler hcallback c) s
  · rintro rfl
    exact Throws.countComplete (runHandler_throws queue handler c) s

/-- No branch takes an entry of the transmit queue for a receive. -/
theorem classifyTx_ne_recv (flags : BitVec 64) : classifyTx flags ≠ some .recv := by
  unfold classifyTx
  split
  · exact nofun
  · split
    · exact nofun
    · split
      · exact nofun
      · exact nofun

/-- An entry of the transmit queue: its callback is invoked when it has a context. -/
theorem sendEntry_spec {e : CqEntry} (hhandled : e.SendHandled) (callback : UserCallback)
    (s : DispatchState) :
    (¬ (callback = .throws ∧ e.opContext.isSome) →
      Finishes (sendEntry e callback) (e.sendRan.map Ran.context) s) ∧
    (callback = .throws ∧ e.opContext.isSome → Throws (sendEntry e callback) s) := by
  obtain ⟨kind, hkind, hwrite⟩ := hhandled
  cases hctx : e.opContext with
  | none =>
    obtain rfl := hwrite hctx
    refine ⟨fun _ => ?_, fun h => absurd h.2 Bool.false_ne_true⟩
    unfold sendEntry CqEntry.sendRan
    simp only [hkind, hctx]
    -- counted, and nothing else
    exact ⟨_, _, rfl, (List.append_nil _).symm, rfl⟩
  | some c =>
    have hran : e.sendRan.map Ran.context = [c] := by simp [CqEntry.sendRan, hkind, hctx]
    have hrun : ∃ handler, sendEntry e callback =
        (do countComplete kind; runHandler .tx handler callback (some c)) := by
      unfold sendEntry
      cases kind with
      | send => exact ⟨.taggedSend, by simp only [hkind, hctx]⟩
      | read => exact ⟨.rmaRead, by simp only [hkind, hctx]⟩
      | write => exact ⟨.rmaWrite, by simp only [hkind, hctx]⟩
      | recv => exact absurd hkind (classifyTx_ne_recv e.flags)
    obtain ⟨handler, hrun⟩ := hrun
    obtain ⟨hfinishes, hthrows⟩ := handled_spec .tx handler kind callback c s
    rw [hran, hrun]
    exact ⟨fun h => hfinishes fun hcallback => h ⟨hcallback, rfl⟩, fun h => hthrows h.1⟩

/-- An entry of the receive queue: a callback is invoked in any case. -/
theorem recvEntry_spec {e : CqEntry} (hhandled : e.RecvHandled) (callback : UserCallback)
    (s : DispatchState) :
    (callback ≠ .throws → Finishes (recvEntry e callback) (e.recvRan.map Ran.context) s) ∧
    (callback = .throws → Throws (recvEntry e callback) s) := by
  obtain ⟨kind?, hkind, hremote⟩ := hhandled
  unfold recvEntry CqEntry.recvRan
  cases kind? with
  | none =>
    simp only [hkind]
    cases callback with
    | unset => exact ⟨fun _ => ⟨_, _, rfl, (List.append_nil _).symm, rfl⟩, nofun⟩
    | returns => exact ⟨fun _ => ⟨_, _, rfl, (List.append_nil _).symm, rfl⟩, nofun⟩
    | throws => exact ⟨fun h => absurd rfl h, fun _ => ⟨_, rfl, rfl, rfl⟩⟩
  | some kind =>
    cases hctx : e.opContext with
    -- without a context it would have to be remote data
    | none => exact absurd (hremote hctx) (Option.some_ne_none kind)
    | some c =>
      simp only [hkind]
      exact handled_spec .rx .taggedRecv .recv callback c s

/-- Either it finishes, or it throws. -/
theorem entry_spec (c : Completion) (s : DispatchState) :
    (c.throws = false → Finishes (entry c) c.contexts s) ∧
    (c.throws = true → Throws (entry c) s) := by
  obtain ⟨queue, e, callback, hhandled⟩ := c
  cases queue with
  | tx =>
    obtain ⟨hfinishes, hthrows⟩ := sendEntry_spec hhandled callback s
    refine ⟨fun h => hfinishes ?_, fun h => hthrows ?_⟩
    · simpa [Completion.throws] using h
    · simpa [Completion.throws] using h
  | rx =>
    obtain ⟨hfinishes, hthrows⟩ := recvEntry_spec hhandled callback s
    refine ⟨fun h => hfinishes ?_, fun h => hthrows ?_⟩
    · simpa [Completion.throws] using h
    · simpa [Completion.throws] using h

/-! ### What a batch does -/

end Dispatch

namespace Completion

/-- The entries of a batch that are finished: those before the first whose callback throws. -/
def finished : List Completion → List Completion
  | [] => []
  | c :: cs => if c.throws then [] else c :: finished cs

/-- The entries of a batch that the loop comes to: the first whose callback throws is the last. -/
def reached : List Completion → List Completion
  | [] => []
  | c :: cs => if c.throws then [c] else c :: reached cs

/-- A batch of which nothing is lost: only the last entry may throw, and only when it has no
context to give back. -/
def Harmless (batch : List Completion) : Prop :=
  ∀ before c after, batch = before ++ c :: after → c.throws = true → after = [] ∧ c.contexts = []

/-- The loop comes to no more than the batch. -/
theorem reached_sublist (batch : List Completion) : (reached batch).Sublist batch := by
  induction batch with
  | nil => exact .slnil
  | cons c cs ih =>
    unfold reached
    split
    · exact List.Sublist.cons_cons c (List.nil_sublist cs)
    · exact List.Sublist.cons_cons c ih

/-- It gives back no more contexts than it comes to. -/
theorem finished_sublist (batch : List Completion) :
    ((finished batch).flatMap contexts).Sublist ((reached batch).flatMap contexts) := by
  induction batch with
  | nil => exact .slnil
  | cons c cs ih =>
    unfold finished reached
    split
    · exact List.nil_sublist _
    · rw [List.flatMap_cons, List.flatMap_cons]
      exact ih.append_left _

theorem harmless_nil : Harmless [] := by
  intro before c after h
  simp at h

/-- A batch whose first entry throws. -/
theorem harmless_cons_of_throws {c : Completion} {cs : List Completion} (hc : c.throws = true) :
    Harmless (c :: cs) ↔ cs = [] ∧ c.contexts = [] := by
  constructor
  · intro h
    exact h [] c cs rfl hc
  · rintro ⟨rfl, hcontexts⟩ before d after hsplit hd
    obtain ⟨rfl, h⟩ | ⟨bs, -, h⟩ := List.cons_eq_append_iff.mp hsplit
    · obtain ⟨rfl, rfl⟩ := List.cons_eq_cons.mp h
      exact ⟨rfl, hcontexts⟩
    · simp at h

/-- A batch whose first entry does not throw. -/
theorem harmless_cons_of_not_throws {c : Completion} {cs : List Completion}
    (hc : ¬ c.throws = true) : Harmless (c :: cs) ↔ Harmless cs := by
  constructor
  · intro h before d after hsplit
    exact h (c :: before) d after (by rw [hsplit, List.cons_append])
  · intro h before d after hsplit hd
    obtain ⟨rfl, heq⟩ | ⟨bs, rfl, heq⟩ := List.cons_eq_append_iff.mp hsplit
    · obtain ⟨rfl, rfl⟩ := List.cons_eq_cons.mp heq
      exact absurd hd hc
    · exact h bs d after heq hd

/-- A batch is harmless when the loop comes to all of it and gives back all contexts. -/
theorem harmless_iff (batch : List Completion) : Harmless batch ↔
    reached batch = batch ∧
      (finished batch).flatMap contexts = (reached batch).flatMap contexts := by
  induction batch with
  | nil => exact iff_of_true harmless_nil ⟨rfl, rfl⟩
  | cons c cs ih =>
    unfold finished reached
    by_cases hc : c.throws = true
    · -- the loop comes to `c` only, and gives back nothing
      rw [harmless_cons_of_throws hc, if_pos hc, if_pos hc, List.flatMap_singleton,
        List.flatMap_nil]
      simp only [List.cons.injEq, true_and, eq_comm]
    · -- the loop goes on, and so does the induction
      rw [harmless_cons_of_not_throws hc, if_neg hc, if_neg hc, ih]
      simp only [List.cons.injEq, true_and, List.flatMap_cons, List.append_cancel_left_eq]

end Completion

namespace Dispatch

/-- The loop over a batch comes to the entries up to the first that throws, gives back the contexts
of those before it, and ends in the exception if there is one. -/
theorem processEntries_spec (cs : List Completion) (processed : ℤ) (s : DispatchState) :
    ∃ t, ((∃ n, processEntries cs processed s = .ok n t ∧ ∀ c ∈ cs, c.throws = false) ∨
        processEntries cs processed s = .error .callback t ∧ ∃ c ∈ cs, c.throws = true) ∧
      t.dispatched = s.dispatched ++ Completion.reached cs ∧
      t.recycled = s.recycled ++ (Completion.finished cs).flatMap Completion.contexts := by
  induction cs generalizing processed s with
  | nil =>
    exact ⟨s, .inl ⟨processed, rfl, nofun⟩, (List.append_nil _).symm, (List.append_nil _).symm⟩
  | cons c cs ih =>
    let s₁ : DispatchState := { s with dispatched := s.dispatched ++ [c] }
    obtain ⟨hfinishes, hthrows⟩ := entry_spec c s₁
    unfold Completion.reached Completion.finished
    simp only [processEntries, Program.modify_bind]
    by_cases hc : c.throws = true
    · -- the exception leaves the loop, whatever comes after `c`
      obtain ⟨t, hrun, hrecycled, hdispatched⟩ := hthrows hc
      refine ⟨t, .inr ⟨Program.bind_of_error hrun, c, List.mem_cons_self, hc⟩, ?_, ?_⟩
      · rw [if_pos hc, hdispatched]
      · rw [if_pos hc, hrecycled, List.flatMap_nil, List.append_nil]
    · -- the loop goes on from the state that `c` leaves
      obtain ⟨n, t, hrun, hrecycled, hdispatched⟩ := hfinishes (Bool.not_eq_true _ ▸ hc)
      obtain ⟨u, hends, hreached, hfinished⟩ := ih (processed + n) t
      refine ⟨u, ?_, ?_, ?_⟩
      · rw [Program.bind_of_ok hrun]
        obtain ⟨m, hok, hall⟩ | ⟨herror, d, hd, hdthrows⟩ := hends
        · exact .inl ⟨m, hok, List.forall_mem_cons.mpr ⟨Bool.not_eq_true _ ▸ hc, hall⟩⟩
        · exact .inr ⟨herror, d, List.mem_cons_of_mem c hd, hdthrows⟩
      · rw [if_neg hc, hreached, hdispatched, List.append_assoc, List.singleton_append]
      · rw [if_neg hc, hfinished, hrecycled, List.flatMap_cons, List.append_assoc]

/-! ### Without an exception -/

/-- A handler that returns does to the counters, the handlers run and the remote data what it does
in `LibFatbat.Controller.Polling`, where callbacks are left out. -/
theorem forget_runHandler {queue : Queue} {handler : Handler} {callback : UserCallback}
    {ctx : Option ℕ} {n : ℤ} {s t : DispatchState}
    (h : runHandler queue handler callback ctx s = .ok n t) :
    LibFatbat.runHandler queue handler ctx s.toPollState = .ok n t.toPollState := by
  cases ctx with
  | none => cases h
  | some c =>
    cases callback with
    | unset =>
      cases h
      rfl
    | returns =>
      cases h
      rfl
    | throws => cases h

theorem forget_sendEntry {e : CqEntry} {callback : UserCallback} {n : ℤ} {s t : DispatchState}
    (h : sendEntry e callback s = .ok n t) :
    LibFatbat.sendEntry e s.toPollState = .ok n t.toPollState := by
  unfold sendEntry at h
  unfold LibFatbat.sendEntry
  cases hkind : classifyTx e.flags with
  | none =>
    -- with flags that no branch recognises the function does not return
    simp only [hkind] at h
    cases h
  | some kind =>
    cases kind with
    | send =>
      simp only [hkind] at h ⊢
      exact forget_runHandler h
    | recv =>
      simp only [hkind] at h
      cases h
    | read =>
      simp only [hkind] at h ⊢
      exact forget_runHandler h
    | write =>
      -- a write without a context is skipped
      simp only [hkind] at h ⊢
      cases hctx : e.opContext with
      | none =>
        simp only [hctx] at h ⊢
        cases h
        rfl
      | some c =>
        simp only [hctx] at h ⊢
        obtain ⟨_, u, hcount, hrun⟩ := Program.bind_ok.mp h
        cases hcount
        exact forget_runHandler hrun

theorem forget_recvEntry {e : CqEntry} {callback : UserCallback} {n : ℤ} {s t : DispatchState}
    (h : recvEntry e callback s = .ok n t) :
    LibFatbat.recvEntry e s.toPollState = .ok n t.toPollState := by
  unfold recvEntry at h
  unfold LibFatbat.recvEntry
  cases hclass : classifyRx e.flags with
  | none =>
    simp only [hclass] at h
    cases h
  | some kind? =>
    cases kind? with
    | some kind =>
      simp only [hclass] at h ⊢
      exact forget_runHandler h
    | none =>
      simp only [hclass] at h ⊢
      cases callback with
      | unset =>
        cases h
        rfl
      | returns =>
        cases h
        rfl
      | throws => cases h

/-- The loop bodies of the two polling functions. -/
def pollEntry : Queue → CqEntry → Poll ℤ
  | .tx => LibFatbat.sendEntry
  | .rx => LibFatbat.recvEntry

/-- A loop over a batch that returns is the loop of the polling function. -/
theorem forget_processEntries {queue : Queue} {cs : List Completion}
    (hqueue : ∀ c ∈ cs, c.queue = queue) {processed n : ℤ} {s t : DispatchState}
    (h : processEntries cs processed s = .ok n t) :
    LibFatbat.processEntries (pollEntry queue) (cs.map Completion.entry) processed
      s.toPollState = .ok n t.toPollState := by
  induction cs generalizing processed s with
  | nil =>
    cases h
    rfl
  | cons c cs ih =>
    obtain ⟨hc, hcs⟩ := List.forall_mem_cons.mp hqueue
    simp only [processEntries, Program.modify_bind] at h
    obtain ⟨m, u, hentry, hrest⟩ := Program.bind_ok.mp h
    have hbody : pollEntry queue c.entry s.toPollState = .ok m u.toPollState := by
      -- the body of the loop is the one of the polling function for the queue
      rw [← hc]
      unfold entry at hentry
      cases hq : c.queue with
      | tx =>
        simp only [hq] at hentry
        have hforget := forget_sendEntry hentry
        exact hforget
      | rx =>
        simp only [hq] at hentry
        have hforget := forget_recvEntry hentry
        exact hforget
    rw [List.map_cons, LibFatbat.processEntries, Program.bind_of_ok hbody]
    exact ih hcs hrest

end Dispatch

/-! ### Polling, again and again -/

/-- A controller and its completion queues. -/
structure PollSystem where
  /-- The completion queues. -/
  cq : Queue → List Completion
  /-- The completions that have been added to a queue, in order. -/
  arrived : List Completion
  /-- The batches that polls have read, in order. -/
  batches : List (List Completion)
  state : DispatchState

/-- What happens to a controller. -/
inductive PollEvent
  /-- libfabric adds a completion to its queue. -/
  | arrive (c : Completion)
  /-- A poll of a queue, in which `fi_cq_read` reads that many entries, or all when there are fewer.
  Whatever the poll throws is caught by its caller. -/
  | poll (queue : Queue) (count : ℕ)

namespace PollSystem

/-- The system of a fresh controller. -/
def start : PollSystem := ⟨fun _ => [], [], [], .start⟩

/-- A poll of a queue. -/
def poll (sys : PollSystem) (queue : Queue) (count : ℕ) : PollSystem where
  cq := Function.update sys.cq queue ((sys.cq queue).drop count)
  arrived := sys.arrived
  batches := sys.batches ++ [(sys.cq queue).take count]
  state :=
    match Dispatch.processEntries ((sys.cq queue).take count) 0 sys.state with
    | .ok _ t => t
    | .error _ t => t

/-- One event. -/
def step (sys : PollSystem) : PollEvent → PollSystem
  | .arrive c => { sys with cq := Function.update sys.cq c.queue (sys.cq c.queue ++ [c])
                            arrived := sys.arrived ++ [c] }
  | .poll queue count => sys.poll queue count

/-- A run. -/
def run (sys : PollSystem) (events : List PollEvent) : PollSystem := events.foldl step sys

/-- Nothing is lost: every completion that has arrived is dispatched or still in its queue, and
every context of those dispatched is back in the pool. -/
structure NothingLost (sys : PollSystem) : Prop where
  dispatched : sys.arrived.Perm (sys.state.dispatched ++ (sys.cq .tx ++ sys.cq .rx))
  recycled : sys.state.recycled.Perm (sys.state.dispatched.flatMap Completion.contexts)

/-- What holds in every run. -/
structure Accounted (sys : PollSystem) : Prop where
  arrived : sys.arrived.Perm (sys.batches.flatten ++ (sys.cq .tx ++ sys.cq .rx))
  dispatched : sys.state.dispatched = sys.batches.flatMap Completion.reached
  recycled : sys.state.recycled =
    sys.batches.flatMap fun batch => (Completion.finished batch).flatMap Completion.contexts

variable {sys : PollSystem}

theorem accounted_start : start.Accounted := ⟨.nil, rfl, rfl⟩

/-- The queues with one more completion. -/
theorem perm_arrive (cq : Queue → List Completion) (queue : Queue) (c : Completion) :
    (cq .tx ++ cq .rx ++ [c]).Perm
      (Function.update cq queue (cq queue ++ [c]) .tx ++
        Function.update cq queue (cq queue ++ [c]) .rx) := by
  cases queue with
  | tx =>
    -- it comes between the two queues
    rw [Function.update_self, Function.update_of_ne (by decide), List.append_assoc,
      List.append_assoc]
    exact List.Perm.append_left _ List.perm_append_comm
  | rx => rw [Function.update_self, Function.update_of_ne (by decide), List.append_assoc]

theorem Accounted.arrive (h : sys.Accounted) (c : Completion) :
    (sys.step (.arrive c)).Accounted := by
  refine ⟨?_, h.dispatched, h.recycled⟩
  have hlast : (sys.arrived ++ [c]).Perm
      (sys.batches.flatten ++ (sys.cq .tx ++ sys.cq .rx) ++ [c]) := h.arrived.append_right [c]
  rw [List.append_assoc] at hlast
  exact hlast.trans (List.Perm.append_left _ (perm_arrive sys.cq c.queue c))

/-- A batch and what stays behind in the queues are what the queues held. -/
theorem perm_take_drop (cq : Queue → List Completion) (queue : Queue) (count : ℕ) :
    (cq .tx ++ cq .rx).Perm ((cq queue).take count ++
      (Function.update cq queue ((cq queue).drop count) .tx ++
        Function.update cq queue ((cq queue).drop count) .rx)) := by
  cases queue with
  | tx =>
    rw [Function.update_self, Function.update_of_ne (by decide), ← List.append_assoc,
      List.take_append_drop]
  | rx =>
    -- the batch is moved before the other queue
    rw [Function.update_self, Function.update_of_ne (by decide), ← List.append_assoc]
    nth_rewrite 1 [← List.take_append_drop count (cq .rx)]
    rw [← List.append_assoc]
    exact List.Perm.append_right _ List.perm_append_comm

theorem Accounted.poll (h : sys.Accounted) (queue : Queue) (count : ℕ) :
    (sys.step (.poll queue count)).Accounted := by
  obtain ⟨t, hends, hreached, hfinished⟩ :=
    Dispatch.processEntries_spec ((sys.cq queue).take count) 0 sys.state
  -- the exception is caught by the caller of the poll, which changes nothing any more
  have hstate : (sys.poll queue count).state = t := by
    unfold PollSystem.poll
    obtain ⟨n, hok, -⟩ | ⟨herror, -⟩ := hends
    · simp only [hok]
    · simp only [herror]
  refine ⟨?_, ?_, ?_⟩
  · show sys.arrived.Perm ((sys.batches ++ [(sys.cq queue).take count]).flatten ++ _)
    rw [List.flatten_concat, List.append_assoc]
    exact h.arrived.trans (List.Perm.append_left _ (perm_take_drop sys.cq queue count))
  · show (sys.poll queue count).state.dispatched = (sys.batches ++ [_]).flatMap _
    rw [hstate, hreached, h.dispatched, List.flatMap_append, List.flatMap_singleton]
  · show (sys.poll queue count).state.recycled = (sys.batches ++ [_]).flatMap _
    rw [hstate, hfinished, h.recycled, List.flatMap_append, List.flatMap_singleton]

theorem Accounted.run (h : sys.Accounted) (events : List PollEvent) :
    (sys.run events).Accounted := by
  induction events generalizing sys with
  | nil => exact h
  | cons event events ih =>
    cases event with
    | arrive c => exact ih (h.arrive c)
    | poll queue count => exact ih (h.poll queue count)

/-- In every run of arrivals and polls, whatever is polled and whichever callbacks throw:
what has been dispatched of each batch are the entries up to the first whose callback throws, and
back in the pool are the contexts of the entries before it. Nothing is lost if and only if no
callback throws, except at the last entry of a batch when that has no context. -/
theorem lost_iff_throws (events : List PollEvent) :
    (start.run events).state.dispatched =
        (start.run events).batches.flatMap Completion.reached ∧
      (start.run events).state.recycled = (start.run events).batches.flatMap (fun batch =>
        (Completion.finished batch).flatMap Completion.contexts) ∧
      ((start.run events).NothingLost ↔
        ∀ batch ∈ (start.run events).batches, Completion.Harmless batch) := by
  have h : (start.run events).Accounted := accounted_start.run events
  refine ⟨h.dispatched, h.recycled, ?_⟩
  generalize start.run events = sys at h
  have hdispatched : sys.arrived.Perm (sys.state.dispatched ++ (sys.cq .tx ++ sys.cq .rx)) ↔
      ∀ batch ∈ sys.batches, Completion.reached batch = batch := by
    -- what is in the queues is on both sides; the batches remain, whole and as they were reached
    rw [h.arrived.congr_left, List.perm_append_right_iff, List.perm_comm, h.dispatched,
      ← List.flatMap_id]
    exact Lists.perm_flatMap_iff Completion.reached_sublist sys.batches
  have hrecycled : sys.state.recycled.Perm (sys.state.dispatched.flatMap Completion.contexts) ↔
      ∀ batch ∈ sys.batches, (Completion.finished batch).flatMap Completion.contexts =
        (Completion.reached batch).flatMap Completion.contexts := by
    rw [h.recycled, h.dispatched, List.flatMap_assoc]
    exact Lists.perm_flatMap_iff Completion.finished_sublist sys.batches
  constructor
  · intro hlost batch hbatch
    exact (Completion.harmless_iff batch).mpr
      ⟨hdispatched.mp hlost.dispatched batch hbatch, hrecycled.mp hlost.recycled batch hbatch⟩
  · intro hall
    refine ⟨hdispatched.mpr fun batch hbatch => ?_, hrecycled.mpr fun batch hbatch => ?_⟩
    · exact ((Completion.harmless_iff batch).mp (hall batch hbatch)).1
    · exact ((Completion.harmless_iff batch).mp (hall batch hbatch)).2

/-! ### Two receives -/

/-- A receive whose callback throws, as `verify_buffer` does, and one after it. -/
def twoReceives : List Completion :=
  [⟨.rx, ⟨fiRecv, some 1, 0⟩, .throws, ⟨some .recv, by decide, nofun⟩⟩,
    ⟨.rx, ⟨fiRecv, some 2, 0⟩, .returns, ⟨some .recv, by decide, nofun⟩⟩]

/-- The run that reads the two receives in one batch. -/
def receivedTogether : PollSystem :=
  start.run (twoReceives.map PollEvent.arrive ++ [.poll .rx 4])

/-- Without completions in the queues, polls come to nothing more. -/
theorem run_polls_of_empty (hempty : ∀ queue, sys.cq queue = []) (polls : List (Queue × ℕ)) :
    (sys.run (polls.map fun p => .poll p.1 p.2)).state = sys.state := by
  induction polls generalizing sys with
  | nil => rfl
  | cons p polls ih =>
    have hstate : (sys.poll p.1 p.2).state = sys.state := by
      simp only [PollSystem.poll, hempty p.1, List.take_nil]
      rfl
    have hcq : ∀ queue, (sys.poll p.1 p.2).cq queue = [] := by
      intro queue
      show Function.update sys.cq p.1 ((sys.cq p.1).drop p.2) queue = []
      rw [hempty p.1, List.drop_nil]
      by_cases hq : queue = p.1
      · rw [hq, Function.update_self]
      · rw [Function.update_of_ne hq, hempty queue]
    exact (ih hcq).trans hstate

/-- The second receive is lost, and so is the context of the first: no later poll brings them
back. -/
theorem receivedTogether_lost :
    ¬ receivedTogether.NothingLost ∧ ∀ polls : List (Queue × ℕ),
      (receivedTogether.run (polls.map fun p => .poll p.1 p.2)).state.dispatched =
          twoReceives.take 1 ∧
        (receivedTogether.run (polls.map fun p => .poll p.1 p.2)).state.recycled = [] := by
  refine ⟨fun hlost => ?_, fun polls => ?_⟩
  · exact absurd hlost.dispatched.length_eq (by decide)
  · have hempty : ∀ queue, receivedTogether.cq queue = [] := by
      intro queue
      cases queue with
      | tx => rfl
      | rx => rfl
    rw [run_polls_of_empty hempty polls]
    exact ⟨rfl, rfl⟩

end PollSystem

end LibFatbat
