import LibFatbat.Controller.Polling

/-!
# The loop of `poll_for_work_completions`

When the loop ends, what it leaves in the queues, and what it reports.

Main results:

* `pollForWorkCompletions_terminates_iff` — the poll sizes for which every run ends when the
  completions do. With a poll size of 0 an empty queue looks like a full batch; with `-1` a busy
  lock does.
* `pollForWorkCompletions_drains_iff` — the loop stops on a full batch only when every full batch
  of the last round holds an entry that runs no handler.
* `progress_exact_iff` — the status reported counts the handlers run when the lock is never busy:
  a busy lock takes one from the number of sends.
-/

namespace LibFatbat

/-! ### One iteration -/

namespace Round

/-- The status that `poll_send_queue` returns. -/
def sendStatus (cfg : PollSetup) (r : Round) : ℤ :=
  if r.busy cfg then -1 else ((r.sends cfg).length : ℤ)

/-- Whether the loop goes on after a round. -/
def retry (cfg : PollSetup) (r : Round) : Bool :=
  cfg.full (r.sendStatus cfg) || cfg.full r.recvs.length

/-- Every entry that a round reads is handled. -/
def Handled (cfg : PollSetup) (r : Round) : Prop :=
  (∀ e ∈ r.sent cfg, e.SendHandled) ∧ ∀ e ∈ r.rx.batch, e.RecvHandled

/-- The handlers that a round runs. -/
def ran (cfg : PollSetup) (r : Round) : List Ran := r.sends cfg ++ (r.recvs ++ r.cancels)

end Round

/-- `p` after a round. -/
def ProgressStatus.add (cfg : PollSetup) (p : ProgressStatus) (r : Round) : ProgressStatus where
  mNumSends := p.mNumSends + BitVec.ofInt 32 (r.sendStatus cfg)
  mNumRecvs := p.mNumRecvs + BitVec.ofInt 32 r.recvs.length

variable {cfg : PollSetup}

/-- An iteration adds the two statuses to `p` and compares them with the poll size. -/
theorem pollIteration_ok {p : ProgressStatus} {r : Round} {q : ProgressStatus × Bool}
    {s s' : PollState} (h : pollIteration cfg p r s = .ok q s') :
    r.Handled cfg ∧ q = (p.add cfg r, r.retry cfg) ∧ s'.ran = s.ran ++ r.ran cfg := by
  obtain ⟨nsend, t, hsend, h⟩ := Program.bind_ok.mp h
  obtain ⟨nrecv, u, hrecv, h⟩ := Program.bind_ok.mp h
  obtain ⟨rfl, rfl⟩ := Program.pure_ok.mp h
  obtain ⟨hsent, rfl, hs⟩ := pollSendQueueDefault_ok hsend
  obtain ⟨hrecvd, rfl, hr⟩ := pollRecvQueueDefault_ok hrecv
  refine ⟨⟨hsent, hrecvd⟩, rfl, ?_⟩
  rw [hr, hs, List.append_assoc]
  rfl

/-- A loop that is left runs the rounds up to the first that does not ask for another, and adds up
their statuses. -/
theorem pollLoop_ok {p q : ProgressStatus} {rounds : List Round} {s s' : PollState}
    (h : pollLoop cfg p rounds s = .ok (some (q, [])) s') :
    (∀ r ∈ rounds, r.Handled cfg) ∧ q = rounds.foldl (fun p r => p.add cfg r) p ∧
      s'.ran = s.ran ++ rounds.flatMap (Round.ran cfg) ∧
      ∃ init last, rounds = init ++ [last] ∧ (∀ r ∈ init, r.retry cfg = true) ∧
        last.retry cfg = false := by
  induction rounds generalizing p s with
  | nil => exact absurd (Program.pure_ok.mp h).1 (by simp)
  | cons r rs ih =>
    obtain ⟨a, t, hround, h⟩ := Program.bind_ok.mp h
    obtain ⟨hhandled, rfl, hran⟩ := pollIteration_ok hround
    cases hretry : r.retry cfg with
    | true =>
      simp only [hretry, if_true] at h
      obtain ⟨hall, rfl, hrest, init, last, rfl, hinit, hlast⟩ := ih h
      refine ⟨List.forall_mem_cons.mpr ⟨hhandled, hall⟩, rfl, ?_, r :: init, last, rfl, ?_, hlast⟩
      · rw [hrest, hran, List.flatMap_cons, List.append_assoc]
      · exact List.forall_mem_cons.mpr ⟨hretry, hinit⟩
    | false =>
      simp only [hretry, Bool.false_eq_true, if_false] at h
      obtain ⟨heq, rfl⟩ := Program.pure_ok.mp h
      obtain ⟨rfl, rfl⟩ := Prod.mk.inj (Option.some.inj heq)
      refine ⟨List.forall_mem_singleton.mpr hhandled, rfl, ?_, [], r, rfl, by simp, hretry⟩
      rw [hran, List.flatMap_cons, List.flatMap_nil, List.append_nil]

/-- A loop that is not left is asked for another round by every round. -/
theorem pollLoop_none {p : ProgressStatus} {rounds : List Round} {s s' : PollState}
    (h : pollLoop cfg p rounds s = .ok none s') : ∀ r ∈ rounds, r.retry cfg = true := by
  induction rounds generalizing p s with
  | nil => simp
  | cons r rs ih =>
    obtain ⟨a, t, hround, h⟩ := Program.bind_ok.mp h
    obtain ⟨-, rfl, -⟩ := pollIteration_ok hround
    cases hretry : r.retry cfg with
    | true =>
      simp only [hretry, if_true] at h
      exact List.forall_mem_cons.mpr ⟨hretry, ih h⟩
    | false =>
      simp only [hretry, Bool.false_eq_true, if_false] at h
      exact absurd (Program.pure_ok.mp h).1 (by simp)

/-! ### The end of the loop -/

/-- What `initialize` does about the poll size. -/
def PollSetup.readPollSize (cfg : PollSetup) (env : Option String) : PollSetup :=
  { cfg with maxCompletionsPerPoll := (libfabricCompletionsPerPoll env).toNat }

/-- The poll size is what the environment gives, as `uint32_t`. -/
theorem PollSetup.ofNat_readPollSize (cfg : PollSetup) (env : Option String) :
    BitVec.ofNat 32 (cfg.readPollSize env).maxCompletionsPerPoll =
      libfabricCompletionsPerPoll env := by
  simp [PollSetup.readPollSize]

namespace Round

/-- `fi_cq_read` returns no more entries than it is asked for. -/
def Bounded (cfg : PollSetup) (r : Round) : Prop :=
  r.tx.batch.length ≤ cfg.maxCompletionsPerPoll ∧ r.rx.batch.length ≤ cfg.maxCompletionsPerPoll

/-- The number of completions that a round takes from the queues. -/
def completions (cfg : PollSetup) (r : Round) : ℕ := (r.sent cfg).length + r.rx.batch.length

/-- A round that asks for another takes a completion, when a poll of an empty queue and a busy lock
do not look like a full batch. -/
theorem completions_pos {r : Round} (hzero : cfg.full 0 = false)
    (hbusy : r.busy cfg = true → cfg.full (-1) = false) (hretry : r.retry cfg = true) :
    0 < r.completions cfg := by
  by_contra hnone
  obtain ⟨hsent, hrecv⟩ : r.sent cfg = [] ∧ r.rx.batch = [] := by
    simpa [completions] using hnone
  have hrecvs : cfg.full r.recvs.length = false := by
    rwa [recvs, hrecv]
  have hsends : cfg.full (r.sendStatus cfg) = false := by
    unfold sendStatus
    split
    · next h => exact hbusy h
    · rwa [sends, hsent]
  rw [retry, hsends, hrecvs] at hretry
  exact absurd hretry (by decide)

end Round

/-- The first rounds of an unbounded run. -/
def firstRounds (rounds : ℕ → Round) (n : ℕ) : List Round := (List.range n).map rounds

/-- Every run in which finitely many completions appear leaves the loop, or ends in another way,
after finitely many rounds. -/
def PollSetup.Terminates (cfg : PollSetup) : Prop :=
  ∀ rounds : ℕ → Round, (∀ i, (rounds i).Bounded cfg) →
    (∃ total, ∀ n, ((firstRounds rounds n).map (Round.completions cfg)).sum ≤ total) →
    ∀ s : PollState, ∃ n, ∀ s', pollForWorkCompletions cfg (firstRounds rounds n) s ≠ .ok none s'

/-- A loop that every round makes go on takes as many completions as it has rounds. -/
theorem length_le_completions {rounds : List Round}
    (h : ∀ r ∈ rounds, 0 < r.completions cfg) :
    rounds.length ≤ (rounds.map (Round.completions cfg)).sum := by
  induction rounds with
  | nil => simp
  | cons r rs ih =>
    obtain ⟨hr, hrs⟩ := List.forall_mem_cons.mp h
    have hrest := ih hrs
    rw [List.map_cons, List.sum_cons, List.length_cons]
    omega

/-- The loop ends when no poll that takes nothing looks like a full batch. -/
theorem terminates_of_full (hzero : cfg.full 0 = false)
    (hbusy : cfg.bypassTxLock = true ∨ cfg.full (-1) = false) : cfg.Terminates := by
  -- each of the rounds takes a completion, and there is one round more than there are completions
  rintro rounds - ⟨total, htotal⟩ s
  refine ⟨total + 1, fun s' hloop => ?_⟩
  have hpos : ∀ r ∈ firstRounds rounds (total + 1), 0 < r.completions cfg := by
    intro r hr
    refine Round.completions_pos hzero ?_ (pollLoop_none hloop r hr)
    intro hr'
    refine hbusy.resolve_left fun hbypass => ?_
    rw [Round.busy, hbypass] at hr'
    exact absurd hr' (by simp)
  have hlength := length_le_completions hpos
  rw [firstRounds, List.length_map, List.length_range] at hlength
  exact absurd (htotal (total + 1)) (by rw [firstRounds]; omega)

/-- A poll size that the assertion refuses ends the first poll. -/
theorem terminates_of_assertFails (hassert : cfg.assertFails = true) : cfg.Terminates := by
  intro rounds _ _ s
  refine ⟨1, fun s' hloop => ?_⟩
  obtain ⟨a, t, hround, -⟩ := Program.bind_ok.mp hloop
  obtain ⟨n, u, hsend, -⟩ := Program.bind_ok.mp hround
  unfold pollSendQueueDefault at hsend
  rw [if_pos hassert] at hsend
  exact Program.throw_ok.mp hsend

/-- A round that takes nothing and makes the loop go on can be met for ever. -/
theorem not_terminates_of_round {r : Round} {s : PollState} (hbounded : r.Bounded cfg)
    (hnone : r.completions cfg = 0)
    (hround : ∀ p, ∃ q, pollIteration cfg p r s = .ok (q, true) s) : ¬cfg.Terminates := by
  intro hterm
  have hfirst : ∀ n, firstRounds (fun _ => r) n = List.replicate n r := by
    intro n
    rw [firstRounds, List.map_const', List.length_range]
  obtain ⟨n, hn⟩ := hterm (fun _ => r) (fun _ => hbounded)
    ⟨0, fun n => by simp [hfirst, hnone]⟩ s
  have hloop : ∀ n p, pollLoop cfg p (List.replicate n r) s = .ok none s := by
    intro n
    induction n with
    | zero => exact fun p => rfl
    | succ n ih =>
      intro p
      obtain ⟨q, hq⟩ := hround p
      rw [List.replicate_succ, pollLoop, Program.bind_ok]
      exact ⟨_, _, hq, ih _⟩
  apply hn s
  rw [hfirst]
  exact hloop n _

/-- An iteration in which both functions return. -/
theorem pollIteration_of_ok {p : ProgressStatus} {r : Round} {m n : ℤ} {s t u : PollState}
    (hsend : pollSendQueueDefault cfg r.lock r.tx s = .ok m t)
    (hrecv : pollRecvQueueDefault cfg r.rx t = .ok n u) :
    ∃ q, pollIteration cfg p r s = .ok (q, cfg.full m || cfg.full n) u :=
  ⟨_, Program.bind_ok.mpr ⟨m, t, hsend, Program.bind_ok.mpr ⟨n, u, hrecv, rfl⟩⟩⟩

/-- An empty receive queue. -/
theorem pollRecvQueueDefault_nil (hassert : cfg.assertFails = false) (s : PollState) :
    pollRecvQueueDefault cfg (.entries []) s = .ok 0 s := by
  unfold pollRecvQueueDefault
  rw [if_neg (Bool.eq_false_iff.mp hassert)]
  rfl

/-- With a poll size of 0 the loop is not left while both queues are empty. -/
theorem not_terminates_of_zero (hmax : cfg.maxCompletionsPerPoll = 0) : ¬cfg.Terminates := by
  have hassert : cfg.assertFails = false := by simp [PollSetup.assertFails, hmax]
  have hfull : cfg.full 0 = true := by simp [Setup.full, hmax]
  -- the poll of an empty queue returns 0, which looks like a full batch
  let r : Round := ⟨true, .entries [], .entries []⟩
  let s : PollState := .start
  refine not_terminates_of_round (r := r) (s := s) ?_ ?_ fun p => ?_
  · simp [r, Round.Bounded, CqRead.batch]
  · simp [r, Round.completions, Round.sent, CqRead.batch]
  have hsend : pollSendQueueDefault cfg r.lock r.tx s = .ok 0 s := by
    unfold pollSendQueueDefault
    rw [if_neg (Bool.eq_false_iff.mp hassert), if_neg (by simp [r])]
    rfl
  have hround := pollIteration_of_ok (p := p) hsend (pollRecvQueueDefault_nil hassert s)
  rwa [hfull] at hround

/-- With a poll size of `-1` the loop is not left while others hold the lock. -/
theorem not_terminates_of_busy (hfull : cfg.full (-1) = true) (hassert : cfg.assertFails = false)
    (hbypass : cfg.bypassTxLock = false) : ¬cfg.Terminates := by
  -- `poll_send_queue_default` returns -1 when it does not get the lock
  let r : Round := ⟨false, .again, .entries []⟩
  let s : PollState := .start
  have hbusy : r.busy cfg = true := by simp [r, Round.busy, hbypass]
  refine not_terminates_of_round (r := r) (s := s) ?_ ?_ fun p => ?_
  · simp [r, Round.Bounded, CqRead.batch]
  · simp [r, Round.completions, Round.sent, CqRead.batch]
  have hsend : pollSendQueueDefault cfg r.lock r.tx s = .ok (-1) s := by
    unfold pollSendQueueDefault
    rw [if_neg (Bool.eq_false_iff.mp hassert),
      show (!cfg.bypassTxLock && !r.lock) = r.busy cfg from rfl, if_pos hbusy]
    rfl
  have hround := pollIteration_of_ok (p := p) hsend (pollRecvQueueDefault_nil hassert s)
  rwa [hfull, Bool.true_or] at hround

/-- The loop of `poll_for_work_completions` ends in every run in which finitely many completions
appear if and only if the poll size read from the environment is neither 0 nor, unless the transmit
lock is bypassed or the assertion on the size is compiled in, `-1`. -/
theorem pollForWorkCompletions_terminates_iff (cfg : PollSetup) (env : Option String) :
    (cfg.readPollSize env).Terminates ↔ libfabricCompletionsPerPoll env ≠ 0#32 ∧
      (libfabricCompletionsPerPoll env = -1#32 →
        cfg.bypassTxLock = true ∨ cfg.assertions = true) := by
  have hfull : ∀ n, (cfg.readPollSize env).full n =
      decide (BitVec.ofInt 32 n = libfabricCompletionsPerPoll env) := by
    intro n
    rw [Setup.full, PollSetup.ofNat_readPollSize]
  constructor
  · intro hterm
    refine ⟨fun hzero => ?_, fun hminus => ?_⟩
    · refine not_terminates_of_zero ?_ hterm
      rw [PollSetup.readPollSize, hzero]
      rfl
    · -- a lock that is taken gives -1, which is then as many as were asked for
      by_contra hneither
      obtain ⟨hbypass, hassert⟩ := not_or.mp hneither
      have hbypass' : (cfg.readPollSize env).bypassTxLock = false := Bool.eq_false_iff.mpr hbypass
      refine not_terminates_of_busy ?_ ?_ hbypass' hterm
      · rw [hfull, hminus]
        decide
      · simp [PollSetup.assertFails, PollSetup.readPollSize, hassert]
  · rintro ⟨hzero, hminus⟩
    -- a failed assertion ends the loop as well
    by_cases hassert : (cfg.readPollSize env).assertFails = true
    · exact terminates_of_assertFails hassert
    refine terminates_of_full ?_ ?_
    · rw [hfull]
      exact decide_eq_false fun h => hzero h.symm
    · rw [hfull]
      by_cases hbusy : libfabricCompletionsPerPoll env = -1#32
      · refine Or.inl ((hminus hbusy).resolve_right fun h => hassert ?_)
        simp only [PollSetup.assertFails, PollSetup.readPollSize, hbusy, h]
        decide
      · exact Or.inr (decide_eq_false fun h => hbusy h.symm)

/-- A size that is not a number is read as 0: the loop is then never left. -/
theorem pollSize_not_a_number :
    ¬(PollSetup.test.readPollSize (some "many")).Terminates := by
  apply not_terminates_of_zero
  decide

example : libfabricCompletionsPerPoll (some " 16 entries") = 16#32 := by decide

/-! ### Full batches -/

namespace Round

/-- The round reads a full batch from one of the queues. -/
def ReadsFull (cfg : PollSetup) (r : Round) : Prop :=
  r.tx.batch.length = cfg.maxCompletionsPerPoll ∨ r.rx.batch.length = cfg.maxCompletionsPerPoll

/-- One of the queues gives up a full batch in which every entry runs a handler: no write without a
context, and no data written by a remote peer. -/
def HandlesFull (cfg : PollSetup) (r : Round) : Prop :=
  (r.tx.batch.length = cfg.maxCompletionsPerPoll ∧ ∀ e ∈ r.tx.batch, e.opContext ≠ none) ∨
    (r.rx.batch.length = cfg.maxCompletionsPerPoll ∧
      ∀ e ∈ r.rx.batch, e.flags &&& (fiTagged ||| fiRecv) ≠ 0#64)

/-- The round meets neither an error nor a busy lock. -/
def Clean (cfg : PollSetup) (r : Round) : Prop :=
  r.busy cfg = false ∧ r.tx.Clean ∧ r.rx.Clean

end Round

/-- A handled entry of the transmit queue runs at most one handler, and none only without a
context. -/
theorem CqEntry.SendHandled.length_sendRan {e : CqEntry} (h : e.SendHandled) :
    e.sendRan.length = if e.opContext ≠ none then 1 else 0 := by
  obtain ⟨kind, hkind, -⟩ := h
  cases hc : e.opContext <;> simp [CqEntry.sendRan, hkind, hc]

/-- A handled entry of the receive queue runs at most one handler, and none only when it is not for
a tagged receive. -/
theorem CqEntry.RecvHandled.length_recvRan {e : CqEntry} (h : e.RecvHandled) :
    e.recvRan.length = if e.flags &&& (fiTagged ||| fiRecv) ≠ 0#64 then 1 else 0 := by
  obtain ⟨kind?, hclass, hctx⟩ := h
  by_cases hflags : e.flags &&& (fiTagged ||| fiRecv) ≠ 0#64
  · have hrecv : classifyRx e.flags = some (some .recv) := if_pos hflags
    obtain ⟨c, hc⟩ : ∃ c, e.opContext = some c := by
      refine Option.ne_none_iff_exists'.mp fun hnone => ?_
      have hremote := hctx hnone
      rw [hrecv] at hclass
      exact absurd (Option.some.inj hclass) (by simp [hremote])
    simp [CqEntry.recvRan, hrecv, hc, hflags]
  · -- remote data is counted, but runs no handler of a context
    have hremote : classifyRx e.flags ≠ some (some .recv) := by
      rw [classifyRx, if_neg hflags]
      split <;> simp
    have hnone : kind? = none := by
      rw [classifyRx, if_neg hflags] at hclass
      split at hclass
      · exact (Option.some.inj hclass).symm
      · exact absurd hclass (by simp)
    simp [CqEntry.recvRan, hclass, hnone, hflags]

/-- When each entry runs a handler or none, the number of handlers run is that of the entries that
run one. -/
theorem length_flatMap_ran {es : List CqEntry} {ran : CqEntry → List Ran} {Runs : CqEntry → Prop}
    [DecidablePred Runs] (hran : ∀ e ∈ es, (ran e).length = if Runs e then 1 else 0) :
    (es.flatMap ran).length = es.countP fun e => Runs e := by
  induction es with
  | nil => rfl
  | cons e es ih =>
    obtain ⟨he, hes⟩ := List.forall_mem_cons.mp hran
    rw [List.flatMap_cons, List.length_append, he, List.countP_cons, Nat.add_comm, ih hes]
    simp

/-- As many entries have a property as could be read if and only if as many were read and all of
them have it. -/
theorem countP_eq_iff {es : List CqEntry} {Runs : CqEntry → Prop} [DecidablePred Runs] {size : ℕ}
    (hlen : es.length ≤ size) :
    es.countP (fun e => Runs e) = size ↔ es.length = size ∧ ∀ e ∈ es, Runs e := by
  have hle := List.countP_le_length (p := fun e => decide (Runs e)) (l := es)
  constructor
  · intro hsize
    have hall : es.countP (fun e => Runs e) = es.length := by omega
    exact ⟨by omega, by simpa using List.countP_eq_length.mp hall⟩
  · rintro ⟨rfl, hall⟩
    exact List.countP_eq_length.mpr (by simpa using hall)

/-- A status that fits is compared with the poll size as a number. -/
theorem full_natCast {n : ℕ} (hn : n ≤ cfg.maxCompletionsPerPoll)
    (hmax : cfg.maxCompletionsPerPoll < 2 ^ 32) :
    cfg.full n = true ↔ n = cfg.maxCompletionsPerPoll := by
  have hlt : n < 2 ^ 32 := lt_of_le_of_lt hn hmax
  rw [Setup.full, decide_eq_true_iff, BitVec.ofInt_natCast]
  constructor
  · intro h
    have htoNat := congrArg BitVec.toNat h
    rwa [BitVec.toNat_ofNat, BitVec.toNat_ofNat, Nat.mod_eq_of_lt hlt, Nat.mod_eq_of_lt hmax]
      at htoNat
  · rintro rfl
    rfl

/-- A batch whose handled entries are counted looks full if and only if it is full and every entry
runs a handler. -/
theorem full_flatMap_iff {es : List CqEntry} {ran : CqEntry → List Ran} {Runs : CqEntry → Prop}
    [DecidablePred Runs] (hmax : cfg.maxCompletionsPerPoll < 2 ^ 32)
    (hran : ∀ e ∈ es, (ran e).length = if Runs e then 1 else 0)
    (hlen : es.length ≤ cfg.maxCompletionsPerPoll) :
    cfg.full (es.flatMap ran).length = true ↔
      es.length = cfg.maxCompletionsPerPoll ∧ ∀ e ∈ es, Runs e := by
  rw [length_flatMap_ran hran, full_natCast (le_trans List.countP_le_length hlen) hmax]
  exact countP_eq_iff hlen

/-- A clean round asks for another if and only if every entry of one of its full batches runs a
handler. -/
theorem Round.retry_iff {r : Round} (hmax : cfg.maxCompletionsPerPoll < 2 ^ 32)
    (hbounded : r.Bounded cfg) (hclean : r.Clean cfg) (hhandled : r.Handled cfg) :
    r.retry cfg = true ↔ r.HandlesFull cfg := by
  obtain ⟨hfree, -, -⟩ := hclean
  obtain ⟨hsent, hrecv⟩ := hhandled
  have hbatch : r.sent cfg = r.tx.batch := by simp [Round.sent, hfree]
  have hstatus : r.sendStatus cfg = ((r.tx.batch.flatMap CqEntry.sendRan).length : ℤ) := by
    simp only [Round.sendStatus, hfree, Bool.false_eq_true, if_false, Round.sends, hbatch]
  rw [hbatch] at hsent
  rw [Round.retry, Bool.or_eq_true, hstatus]
  exact or_congr
    (full_flatMap_iff hmax (fun e he => (hsent e he).length_sendRan) hbounded.1)
    (full_flatMap_iff hmax (fun e he => (hrecv e he).length_recvRan) hbounded.2)

/-- A loop that met neither errors nor a busy lock has left no full batch behind, and read the
queues again after every full batch, if and only if every round with a full batch has one in which
every entry runs a handler. -/
theorem pollForWorkCompletions_drains_iff {rounds : List Round} {p : ProgressStatus}
    {s s' : PollState} (hmax : cfg.maxCompletionsPerPoll ≤ maxCompletionsArrayLimit)
    (hrounds : ∀ r ∈ rounds, r.Bounded cfg ∧ r.Clean cfg)
    (hrun : pollForWorkCompletions cfg rounds s = .ok (some (p, [])) s') :
    ((∀ r, rounds.getLast? = some r →
        r.tx.batch.length < cfg.maxCompletionsPerPoll ∧
          r.rx.batch.length < cfg.maxCompletionsPerPoll) ∧
      ∀ pre r post, rounds = pre ++ r :: post → r.ReadsFull cfg → post ≠ []) ↔
    ∀ r ∈ rounds, r.ReadsFull cfg → r.HandlesFull cfg := by
  have hmax' : cfg.maxCompletionsPerPoll < 2 ^ 32 := lt_of_le_of_lt hmax (by decide)
  obtain ⟨hhandled, -, -, init, last, rfl, hinit, hlast⟩ := pollLoop_ok hrun
  have hretry : ∀ r ∈ init ++ [last], r.retry cfg = true ↔ r.HandlesFull cfg := fun r hr =>
    r.retry_iff hmax' (hrounds r hr).1 (hrounds r hr).2 (hhandled r hr)
  have hlastMem : last ∈ init ++ [last] := by simp
  constructor
  · rintro ⟨-, hagain⟩ r hr hfull
    rcases List.mem_append.mp hr with hr' | hr'
    · exact (hretry r hr).mp (hinit r hr')
    · obtain rfl := List.mem_singleton.mp hr'
      exact absurd rfl (hagain init r [] rfl hfull)
  · intro hall
    -- The last round does not ask for another, so neither of its batches is full.
    have hnot : ¬last.ReadsFull cfg := by
      intro hfull
      have hretryLast := (hretry last hlastMem).mpr (hall last hlastMem hfull)
      rw [hlast] at hretryLast
      exact absurd hretryLast (by decide)
    obtain ⟨htx, hrx⟩ := not_or.mp hnot
    obtain ⟨htxLe, hrxLe⟩ := (hrounds last hlastMem).1
    refine ⟨fun r hr => ?_, ?_⟩
    · rw [List.getLast?_append, List.getLast?_singleton, Option.some_or] at hr
      obtain rfl := Option.some.inj hr
      exact ⟨lt_of_le_of_ne htxLe htx, lt_of_le_of_ne hrxLe hrx⟩
    · rintro pre r post heq hfull rfl
      have hr : last = r := by
        have hlasts := congrArg List.getLast? heq
        simpa using hlasts
      exact hnot (hr ▸ hfull)

/-- Four receives fill a batch, and then both queues are empty. -/
def fullThenEmpty : List Round :=
  [⟨true, .again, .entries (List.replicate 4 ⟨fiTagged ||| fiRecv, some 1, 0#64⟩)⟩,
    ⟨true, .again, .again⟩]

/-- After the full batch the queues are read again, and found empty. -/
theorem drains_full_batch :
    (∃ r ∈ fullThenEmpty, r.ReadsFull .test) ∧
      (∀ r, fullThenEmpty.getLast? = some r → r.tx.batch.length < 4 ∧ r.rx.batch.length < 4) ∧
        ∀ pre r post, fullThenEmpty = pre ++ r :: post → r.ReadsFull .test → post ≠ [] := by
  have hrounds : ∀ r ∈ fullThenEmpty, r.Bounded .test ∧ r.Clean .test := by
    intro r hr
    rcases List.mem_cons.mp hr with rfl | hr
    · exact ⟨⟨by decide, by decide⟩, rfl, trivial, trivial⟩
    · obtain rfl := List.mem_singleton.mp hr
      exact ⟨⟨by decide, by decide⟩, rfl, trivial, trivial⟩
  have hrun : ∃ s', pollForWorkCompletions .test fullThenEmpty .start =
      .ok (some (⟨0#32, 4#32⟩, [])) s' := ⟨_, rfl⟩
  obtain ⟨s', hrun⟩ := hrun
  have hhandled : ∀ r ∈ fullThenEmpty, r.ReadsFull .test → r.HandlesFull .test := by
    intro r hr hfull
    rcases List.mem_cons.mp hr with rfl | hr
    · -- every entry of the full batch is a receive
      exact .inr ⟨rfl, by decide⟩
    · obtain rfl := List.mem_singleton.mp hr
      rcases hfull with hfull | hfull <;> cases hfull
  exact ⟨⟨_, List.mem_cons_self, .inr rfl⟩,
    (pollForWorkCompletions_drains_iff (by decide) hrounds hrun).mpr hhandled⟩

/-- Four writes of remote peers fill a batch, and the loop stops without reading the queue again. -/
theorem remote_data_not_drained :
    ∃ (r : Round) (p : ProgressStatus) (s' : PollState),
      pollForWorkCompletions .test [r] .start = .ok (some (p, [])) s' ∧
        r.Bounded .test ∧ r.Clean .test ∧
          r.rx.batch.length = PollSetup.test.maxCompletionsPerPoll :=
  ⟨⟨true, .entries [], .entries (List.replicate 4 ⟨fiRma ||| fiRemoteWrite, none, 7#64⟩)⟩,
    ⟨0#32, 0#32⟩, ⟨fun _ => 0#32, 4#32, [], List.replicate 4 7#64⟩, rfl,
    ⟨by decide, by decide⟩, ⟨rfl, trivial, trivial⟩, rfl⟩

/-! ### The status reported -/

/-- The number of completion handlers run for a queue. -/
def completionHandlers (queue : Queue) (ran : List Ran) : ℕ :=
  ran.countP fun x => x.queue = queue && x.handler ≠ .cancelled

/-- The number of handlers run for a queue, `handle_cancelled` among them. -/
def allHandlers (queue : Queue) (ran : List Ran) : ℕ := ran.countP fun x => x.queue = queue

/-- The number of rounds in which the transmit lock is busy. -/
def busyRounds (cfg : PollSetup) (rounds : List Round) : ℕ := rounds.countP (Round.busy cfg)

/-- The completions that run a handler for the transmit queue. -/
def sendsServed (cfg : PollSetup) (rounds : List Round) : ℕ :=
  (rounds.flatMap (Round.sends cfg)).length

/-- The completions that run a handler for the receive queue. -/
def recvsServed (rounds : List Round) : ℕ := (rounds.flatMap Round.recvs).length

/-- The operations whose cancellation is reported. -/
def cancelsServed (rounds : List Round) : ℕ := (rounds.flatMap Round.cancels).length

/-- The handlers run for the transmit queue. -/
theorem Round.mem_sends {r : Round} {x : Ran} (h : x ∈ r.sends cfg) :
    x.queue = .tx ∧ x.handler ≠ .cancelled := by
  obtain ⟨e, -, hx⟩ := List.mem_flatMap.mp h
  unfold CqEntry.sendRan at hx
  split at hx
  next kind c _ _ =>
    obtain rfl := List.mem_singleton.mp hx
    exact ⟨rfl, by cases kind <;> simp [Kind.handler]⟩
  next => exact absurd hx List.not_mem_nil

/-- The completion handlers run for the receive queue. -/
theorem Round.mem_recvs {r : Round} {x : Ran} (h : x ∈ r.recvs) :
    x.queue = .rx ∧ x.handler = .taggedRecv := by
  obtain ⟨e, -, hx⟩ := List.mem_flatMap.mp h
  unfold CqEntry.recvRan at hx
  split at hx
  next =>
    obtain rfl := List.mem_singleton.mp hx
    exact ⟨rfl, rfl⟩
  next => exact absurd hx List.not_mem_nil

/-- The cancellation handlers run for the receive queue. -/
theorem Round.mem_cancels {r : Round} {x : Ran} (h : x ∈ r.cancels) :
    x.queue = .rx ∧ x.handler = .cancelled := by
  unfold Round.cancels at h
  split at h
  next =>
    split at h
    · obtain rfl := List.mem_singleton.mp h
      exact ⟨rfl, rfl⟩
    · exact absurd h List.not_mem_nil
  next => exact absurd h List.not_mem_nil

section Counts

variable {counted : Ran → Bool} {rounds : List Round}

/-- The handlers run are those for sends, for receives and for cancellations. -/
theorem countP_ran : (rounds.flatMap (Round.ran cfg)).countP counted =
    (rounds.flatMap (Round.sends cfg)).countP counted +
      (rounds.flatMap Round.recvs).countP counted +
      (rounds.flatMap Round.cancels).countP counted := by
  induction rounds with
  | nil => rfl
  | cons r rs ih =>
    simp only [List.flatMap_cons, List.countP_append, Round.ran, ih]
    omega

/-- A kind of handler that every round runs is counted as often as it is run. -/
theorem countP_served {f : Round → List Ran}
    (h : ∀ (r : Round) (x : Ran), x ∈ f r → counted x = true) :
    (rounds.flatMap f).countP counted = (rounds.flatMap f).length := by
  refine List.countP_eq_length.mpr fun x hx => ?_
  obtain ⟨r, -, hx⟩ := List.mem_flatMap.mp hx
  exact h r x hx

/-- A kind of handler that is not to be counted is not. -/
theorem countP_not_served {f : Round → List Ran}
    (h : ∀ (r : Round) (x : Ran), x ∈ f r → counted x = false) :
    (rounds.flatMap f).countP counted = 0 := by
  refine List.countP_eq_zero.mpr fun x hx => ?_
  obtain ⟨r, -, hx⟩ := List.mem_flatMap.mp hx
  simp [h r x hx]

/-- The completion handlers run for the transmit queue are those of the sends, reads and writes
served. -/
theorem completionHandlers_tx :
    completionHandlers .tx (rounds.flatMap (Round.ran cfg)) = sendsServed cfg rounds := by
  rw [completionHandlers, countP_ran,
    countP_served (f := Round.sends cfg) fun r x hx => by simp [Round.mem_sends hx],
    countP_not_served (f := Round.recvs) fun r x hx => by simp [Round.mem_recvs hx],
    countP_not_served (f := Round.cancels) fun r x hx => by simp [Round.mem_cancels hx]]
  rfl

/-- The completion handlers run for the receive queue are those of the receives served. -/
theorem completionHandlers_rx :
    completionHandlers .rx (rounds.flatMap (Round.ran cfg)) = recvsServed rounds := by
  rw [completionHandlers, countP_ran,
    countP_not_served (f := Round.sends cfg) fun r x hx => by simp [Round.mem_sends hx],
    countP_served (f := Round.recvs) fun r x hx => by simp [Round.mem_recvs hx],
    countP_not_served (f := Round.cancels) fun r x hx => by simp [Round.mem_cancels hx],
    zero_add, add_zero, recvsServed]

/-- With the cancellation handlers, the receive queue runs one handler for each cancellation
more. -/
theorem allHandlers_rx :
    allHandlers .rx (rounds.flatMap (Round.ran cfg)) =
      recvsServed rounds + cancelsServed rounds := by
  rw [allHandlers, countP_ran,
    countP_not_served (f := Round.sends cfg) fun r x hx => by simp [Round.mem_sends hx],
    countP_served (f := Round.recvs) fun r x hx => by simp [Round.mem_recvs hx],
    countP_served (f := Round.cancels) fun r x hx => by simp [Round.mem_cancels hx],
    zero_add, recvsServed, cancelsServed]

/-- A busy round runs no handler for the transmit queue and counts as minus one. -/
theorem foldl_add_mNumSends (p : ProgressStatus) :
    (rounds.foldl (fun p r => p.add cfg r) p).mNumSends = p.mNumSends +
      BitVec.ofInt 32 ((sendsServed cfg rounds : ℤ) - busyRounds cfg rounds) := by
  induction rounds generalizing p with
  | nil => simp [sendsServed, busyRounds]
  | cons r rs ih =>
    -- the status of a round is the number of its sends, or -1, when it has none
    have hstatus : r.sendStatus cfg = ((r.sends cfg).length : ℤ) - (busyRounds cfg [r] : ℤ) := by
      by_cases hbusy : r.busy cfg = true
      · simp [Round.sendStatus, busyRounds, Round.sends, Round.sent, hbusy]
      · simp [Round.sendStatus, busyRounds, hbusy]
    have hsum : (sendsServed cfg (r :: rs) : ℤ) - busyRounds cfg (r :: rs) =
        r.sendStatus cfg + ((sendsServed cfg rs : ℤ) - busyRounds cfg rs) := by
      rw [hstatus]
      simp only [sendsServed, busyRounds, List.flatMap_cons, List.length_append, List.countP_cons,
        List.countP_nil]
      push_cast
      ring
    rw [List.foldl_cons, ih, ProgressStatus.add, hsum, BitVec.ofInt_add, BitVec.add_assoc]

/-- The receives served are added up. -/
theorem foldl_add_mNumRecvs (p : ProgressStatus) :
    (rounds.foldl (fun p r => p.add cfg r) p).mNumRecvs = p.mNumRecvs +
      BitVec.ofInt 32 (recvsServed rounds) := by
  induction rounds generalizing p with
  | nil => simp [recvsServed]
  | cons r rs ih =>
    have hsum : (recvsServed (r :: rs) : ℤ) = (r.recvs.length : ℤ) + recvsServed rs := by
      simp [recvsServed]
    rw [List.foldl_cons, ih, ProgressStatus.add, hsum, BitVec.ofInt_add, BitVec.add_assoc]

end Counts

/-- When an `int` that was decremented in between is the number it should be. -/
theorem toInt_ofInt_sub_eq_iff {n m b : ℕ} (hle : m ≤ n) :
    (BitVec.ofInt 32 ((m : ℤ) - b)).toInt = n ↔ 2 ^ 32 ∣ n - m + b ∧ n < 2 ^ 31 := by
  rw [BitVec.toInt_ofInt, Int.bmod]
  norm_num
  omega

/-- A call of `poll_for_work_completions` reports the completion handlers it ran for each queue if
and only if the number of rounds with a busy lock is a multiple of `2 ^ 32` and the numbers fit into
an `int`. If `handle_cancelled` is counted as well, no cancellation may be reported either. -/
theorem progress_exact_iff {rounds : List Round} {p : ProgressStatus} {s s' : PollState}
    (hrun : pollForWorkCompletions cfg rounds s = .ok (some (p, [])) s') :
    ∃ ran, s'.ran = s.ran ++ ran ∧
      ((p.numSends = completionHandlers .tx ran ∧ p.numRecvs = completionHandlers .rx ran) ↔
        2 ^ 32 ∣ busyRounds cfg rounds ∧ sendsServed cfg rounds < 2 ^ 31 ∧
          recvsServed rounds < 2 ^ 31) ∧
      ((p.numSends = completionHandlers .tx ran ∧ p.numRecvs = allHandlers .rx ran) ↔
        2 ^ 32 ∣ busyRounds cfg rounds ∧ sendsServed cfg rounds < 2 ^ 31 ∧
          recvsServed rounds < 2 ^ 31 ∧ cancelsServed rounds = 0) := by
  obtain ⟨-, rfl, hran, -⟩ := pollLoop_ok hrun
  -- the sums are 32-bit, and a busy lock adds -1 to those of the sends
  have hsends := toInt_ofInt_sub_eq_iff (n := sendsServed cfg rounds)
    (m := sendsServed cfg rounds) (b := busyRounds cfg rounds) le_rfl
  have hrecvs := toInt_ofInt_sub_eq_iff (n := recvsServed rounds) (m := recvsServed rounds)
    (b := 0) le_rfl
  have hcancels := toInt_ofInt_sub_eq_iff (n := recvsServed rounds + cancelsServed rounds)
    (m := recvsServed rounds) (b := 0) (Nat.le_add_right _ _)
  rw [Nat.sub_self, Nat.zero_add] at hsends hrecvs
  rw [Nat.cast_zero, sub_zero] at hrecvs hcancels
  -- `numSends` and `numRecvs` against the handlers of completions
  refine ⟨_, hran, ?_, ?_⟩
  · rw [ProgressStatus.numSends, ProgressStatus.numRecvs, foldl_add_mNumSends, foldl_add_mNumRecvs,
      completionHandlers_tx, completionHandlers_rx, BitVec.zero_add, BitVec.zero_add, hsends,
      hrecvs]
    simp only [dvd_zero, true_and, and_assoc]
  · -- and against all handlers, those of cancelled receives included
    rw [ProgressStatus.numSends, ProgressStatus.numRecvs, foldl_add_mNumSends, foldl_add_mNumRecvs,
      completionHandlers_tx, allHandlers_rx, BitVec.zero_add, BitVec.zero_add, hsends, hcancels]
    omega

/-- The status after the completion of one send. -/
theorem progress_one_send :
    ∃ ran, [⟨.tx, .taggedSend, 3⟩] = PollState.start.ran ++ ran ∧
      (ProgressStatus.mk 1#32 0#32).numSends = completionHandlers .tx ran ∧
      (ProgressStatus.mk 1#32 0#32).numRecvs = completionHandlers .rx ran := by
  let round : Round := ⟨true, .entries [⟨fiSend ||| fiMsg, some 3, 0#64⟩], .again⟩
  let after : PollState :=
    { PollState.start.finish .send [⟨.tx, .taggedSend, 3⟩] with remoteCqDataReceived := 0#32 }
  have hrun : pollForWorkCompletions .test [round] .start =
      .ok (some (⟨1#32, 0#32⟩, [])) after := rfl
  obtain ⟨ran, hran, hexact, -⟩ := progress_exact_iff hrun
  exact ⟨ran, hran, hexact.mpr (by decide)⟩

/-- A call that finds the transmit lock busy and both queues empty reports -1 sends. -/
theorem busy_lock_reported :
    ∃ p, pollForWorkCompletions { PollSetup.test with provider := .lnx, threading := .endpoint
                                                      endpointType := .single }
        [⟨false, .entries [], .entries []⟩] .start = .ok (some (p, [])) .start ∧
      p.numSends = -1 :=
  ⟨⟨-1#32, 0#32⟩, rfl, by decide⟩

end LibFatbat
