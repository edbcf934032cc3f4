import LibFatbat.Controller.Progress

/-!
# The size of a batch

`poll_send_queue_default` and `poll_recv_queue_default` ask libfabric for
`max_completions_per_poll_` entries, which it writes to an array of `max_completions_array_limit_`.
The number is what `atoi` reads from `LIBFABRIC_POLL_SIZE`, converted from `int` to `uint32_t`, and
an assertion is all that looks at it.

Main result: `batchesFit_iff`. The number fits the array if and only if the variable is unset or
the integer that it begins with is at most 256 modulo `2 ^ 32`.
-/

namespace LibFatbat

/-- `poll_send_queue_default` until it calls `fi_cq_read`: the number of entries that it asks for,
or `none` when it returns before. -/
def pollSendQueueRequest (cfg : PollSetup) (lock : Bool) : Except Stop (Option ℕ) :=
  if cfg.assertFails then .error .assertion
  else if !cfg.bypassTxLock && !lock then .ok none
  else .ok (some cfg.maxCompletionsPerPoll)

/-- `poll_recv_queue_default` until it calls `fi_cq_read`. -/
def pollRecvQueueRequest (cfg : PollSetup) : Except Stop (Option ℕ) :=
  if cfg.assertFails then .error .assertion else .ok (some cfg.maxCompletionsPerPoll)

/-- The assertion holds, and what is asked for fits the array. -/
def RequestFits : Except Stop (Option ℕ) → Prop
  | .error _ => False
  | .ok count => ∀ n ∈ count, n ≤ maxCompletionsArrayLimit

/-- Every call of the two functions asks for what fits the array. -/
def PollSetup.BatchesFit (cfg : PollSetup) : Prop :=
  (∀ lock, RequestFits (pollSendQueueRequest cfg lock)) ∧ RequestFits (pollRecvQueueRequest cfg)

variable {cfg : PollSetup}

/-- Requests fit if and only if the poll size does, with or without the assertion. -/
theorem PollSetup.batchesFit_iff_le :
    cfg.BatchesFit ↔ cfg.maxCompletionsPerPoll ≤ maxCompletionsArrayLimit := by
  constructor
  · -- the receive queue asks for the whole poll size, if the assertion lets it
    rintro ⟨-, hrecv⟩
    unfold pollRecvQueueRequest at hrecv
    by_cases hassert : cfg.assertFails = true
    · rw [if_pos hassert] at hrecv
      exact absurd hrecv not_false
    · rw [if_neg hassert] at hrecv
      exact hrecv _ rfl
  · intro hle
    have hassert : ¬ cfg.assertFails = true := by
      -- the assertion is on the poll size too
      simp [PollSetup.assertFails, Nat.not_lt.mpr hle]
    have hfits : RequestFits (.ok (some cfg.maxCompletionsPerPoll)) := by
      rintro n ⟨⟩
      exact hle
    refine ⟨fun lock => ?_, ?_⟩
    · unfold pollSendQueueRequest
      rw [if_neg hassert]
      split
      · -- nothing is asked for
        intro n hn
        cases hn
      · exact hfits
    · unfold pollRecvQueueRequest
      rwa [if_neg hassert]

/-! ### What libfabric writes -/

/-- A poll that ends in this way has written past the array, or would have. -/
def Stop.IsOverrun : Stop → Prop
  | .assertion | .overflow => True
  | .terminate | .nullContext | .fabricError => False

/-- The functions, given that libfabric returns a batch: what they ask for comes first. -/
theorem pollSendQueueDefault_entries (cfg : PollSetup) (lock : Bool) (es : List CqEntry)
    (s : PollState) : pollSendQueueDefault cfg lock (.entries es) s =
      match pollSendQueueRequest cfg lock with
      | .error stop => .error stop s
      | .ok none => .ok (-1) s
      | .ok (some _) =>
        if maxCompletionsArrayLimit < es.length then .error .overflow s
        else processEntries sendEntry es 0 s := by
  unfold pollSendQueueDefault pollSendQueueRequest
  split
  · rfl
  · split
    · rfl
    · dsimp only
      split <;> rfl

theorem pollRecvQueueDefault_entries (cfg : PollSetup) (es : List CqEntry) (s : PollState) :
    pollRecvQueueDefault cfg (.entries es) s =
      match pollRecvQueueRequest cfg with
      | .error stop => .error stop s
      | .ok none => .ok (-1) s
      | .ok (some _) =>
        if maxCompletionsArrayLimit < es.length then .error .overflow s
        else processEntries recvEntry es 0 s := by
  unfold pollRecvQueueDefault pollRecvQueueRequest
  split
  · rfl
  · dsimp only
    split <;> rfl

/-- A loop over entries overruns nothing when no entry does. -/
theorem not_isOverrun_processEntries {entry : CqEntry → Poll ℤ}
    (hentry : ∀ e s stop t, entry e s = .error stop t → ¬ stop.IsOverrun) {es : List CqEntry}
    {processed : ℤ} {s s' : PollState} {stop : Stop}
    (h : processEntries entry es processed s = .error stop s') : ¬ stop.IsOverrun := by
  induction es generalizing processed s with
  | nil => cases h
  | cons e es ih =>
    -- either this entry ends the loop, or the rest of the batch does
    cases hrun : entry e s with
    | ok n t =>
      rw [processEntries, Program.bind_of_ok hrun] at h
      exact ih h
    | error stop' t =>
      rw [processEntries, Program.bind_of_error hrun] at h
      obtain ⟨rfl, rfl⟩ := EStateM.Result.error.inj h
      exact hentry e s stop' t hrun

theorem not_isOverrun_runHandler {queue : Queue} {handler : Handler} {ctx : Option ℕ}
    {s s' : PollState} {stop : Stop} (h : runHandler queue handler ctx s = .error stop s') :
    ¬ stop.IsOverrun := by
  cases ctx with
  | none =>
    obtain ⟨rfl, -⟩ := EStateM.Result.error.inj h
    exact not_false
  | some c => cases h

theorem not_isOverrun_terminate {s s' : PollState} {stop : Stop}
    (h : (throw .terminate : Poll ℤ) s = .error stop s') : ¬ stop.IsOverrun := by
  obtain ⟨rfl, -⟩ := EStateM.Result.error.inj h
  exact not_false

/-- Counting a completion returns, so that what ends the code is what comes after. -/
theorem not_isOverrun_countComplete {kind : Kind} {x : Poll ℤ}
    (hx : ∀ s stop s', x s = .error stop s' → ¬ stop.IsOverrun) {s s' : PollState} {stop : Stop}
    (h : (do countComplete kind; x) s = .error stop s') : ¬ stop.IsOverrun := by
  have hcount : ∃ t, countComplete kind s = .ok () t := ⟨_, rfl⟩
  obtain ⟨t, ht⟩ := hcount
  rw [Program.bind_of_ok ht] at h
  exact hx t stop s' h

theorem not_isOverrun_sendEntry (e : CqEntry) (s : PollState) (stop : Stop) (s' : PollState)
    (h : sendEntry e s = .error stop s') : ¬ stop.IsOverrun := by
  unfold sendEntry at h
  cases hkind : classifyTx e.flags with
  | none =>
    simp only [hkind] at h
    exact not_isOverrun_terminate h
  | some kind =>
    cases kind with
    | send =>
      simp only [hkind] at h
      exact not_isOverrun_countComplete (fun _ _ _ => not_isOverrun_runHandler) h
    | recv =>
      simp only [hkind] at h
      exact not_isOverrun_terminate h
    | read =>
      simp only [hkind] at h
      exact not_isOverrun_countComplete (fun _ _ _ => not_isOverrun_runHandler) h
    | write =>
      simp only [hkind] at h
      cases hctx : e.opContext with
      | none =>
        -- a write without a context is counted, and that is all
        simp only [hctx] at h
        cases h
      | some c =>
        simp only [hctx] at h
        exact not_isOverrun_countComplete (fun _ _ _ => not_isOverrun_runHandler) h

theorem not_isOverrun_recvEntry (e : CqEntry) (s : PollState) (stop : Stop) (s' : PollState)
    (h : recvEntry e s = .error stop s') : ¬ stop.IsOverrun := by
  unfold recvEntry at h
  cases hclass : classifyRx e.flags with
  | none =>
    simp only [hclass] at h
    exact not_isOverrun_terminate h
  | some kind? =>
    cases kind? with
    | some kind =>
      simp only [hclass] at h
      exact not_isOverrun_countComplete (fun _ _ _ => not_isOverrun_runHandler) h
    | none =>
      -- remote data comes without a context, and its branch returns
      simp only [hclass] at h
      cases h

/-- Requests fit if and only if no batch that libfabric may return, with as many entries as were
asked for or fewer, overruns the array. -/
theorem PollSetup.batchesFit_iff_inside : cfg.BatchesFit ↔
    ∀ es, es.length ≤ cfg.maxCompletionsPerPoll → ∀ s stop s',
      (∀ lock, pollSendQueueDefault cfg lock (.entries es) s = .error stop s' →
        ¬ stop.IsOverrun) ∧
      (pollRecvQueueDefault cfg (.entries es) s = .error stop s' → ¬ stop.IsOverrun) := by
  rw [batchesFit_iff_le]
  constructor
  · intro hle es hes s stop s'
    have hassert : ¬ cfg.assertFails = true := by
      simp [PollSetup.assertFails, Nat.not_lt.mpr hle]
    have hlength : ¬ maxCompletionsArrayLimit < es.length := by omega
    constructor
    · intro lock hrun
      rw [pollSendQueueDefault_entries, pollSendQueueRequest, if_neg hassert] at hrun
      by_cases hbusy : (!cfg.bypassTxLock && !lock) = true
      · -- another thread is polling
        rw [if_pos hbusy] at hrun
        cases hrun
      · simp only [if_neg hbusy, if_neg hlength] at hrun
        exact not_isOverrun_processEntries not_isOverrun_sendEntry hrun
    · intro hrun
      rw [pollRecvQueueDefault_entries, pollRecvQueueRequest, if_neg hassert] at hrun
      simp only [if_neg hlength] at hrun
      exact not_isOverrun_processEntries not_isOverrun_recvEntry hrun
  · intro hinside
    by_contra! hlarge
    -- libfabric fills the array and goes on
    let es : List CqEntry := List.replicate cfg.maxCompletionsPerPoll ⟨0, none, 0⟩
    have hlength : es.length = cfg.maxCompletionsPerPoll := List.length_replicate
    by_cases hassert : cfg.assertFails = true
    · -- a build with assertions stops before it asks
      refine (hinside es hlength.le .start .assertion .start).2 ?_ trivial
      rw [pollRecvQueueDefault_entries, pollRecvQueueRequest, if_pos hassert]
    · -- a build without them is told of more entries than the array has
      refine (hinside es hlength.le .start .overflow .start).2 ?_ trivial
      rw [pollRecvQueueDefault_entries, pollRecvQueueRequest, if_neg hassert]
      simp only [hlength, if_pos hlarge]

/-! ### The environment -/

/-- Whatever the environment says, in a build with or without assertions: all requests of the two
functions fit the array, and the assertion holds, if and only if `LIBFABRIC_POLL_SIZE` is unset or
the integer that `strtol` reads from it is at most 256 modulo `2 ^ 32`. -/
theorem batchesFit_iff (cfg : PollSetup) (env : Option String) :
    (cfg.readPollSize env).BatchesFit ↔
      ∀ s ∈ env, strtol s % 2 ^ 32 ≤ maxCompletionsArrayLimit := by
  rw [PollSetup.batchesFit_iff_le]
  have hsize : (cfg.readPollSize env).maxCompletionsPerPoll =
      (libfabricCompletionsPerPoll env).toNat := rfl
  rw [hsize]
  cases env with
  | none => exact iff_of_true (by decide) nofun
  | some s =>
    -- the conversion of a negative `int` is the residue, as the remainder of `ℤ` is
    have hvalue : (libfabricCompletionsPerPoll (some s)).toNat = (strtol s % 2 ^ 32).toNat :=
      BitVec.toNat_ofInt _
    have hnonneg : 0 ≤ strtol s % 2 ^ 32 := Int.emod_nonneg _ (by decide)
    rw [hvalue]
    constructor
    · rintro hle _ ⟨⟩
      omega
    · intro hle
      have hle := hle s rfl
      omega

/-- With `LIBFABRIC_POLL_SIZE=-1` the assertion fails, and without it `2 ^ 32 - 1` entries are asked
for. -/
theorem batchesFit_minus_one :
    pollRecvQueueRequest (PollSetup.test.readPollSize (some "-1")) = .error .assertion ∧
      pollRecvQueueRequest ({ PollSetup.test with assertions := false }.readPollSize (some "-1")) =
        .ok (some 4294967295) ∧
      ¬ (PollSetup.test.readPollSize (some "-1")).BatchesFit := by
  have hassert : pollRecvQueueRequest (PollSetup.test.readPollSize (some "-1")) =
      .error .assertion := by decide +kernel
  refine ⟨hassert, by decide +kernel, ?_⟩
  rintro ⟨-, hrecv⟩
  rw [hassert] at hrecv
  exact hrecv

example : libfabricCompletionsPerPoll (some "257") = 257#32 := by decide

end LibFatbat
