import LibFatbat.Controller.Polling

/-!
# Remote CQ data

Which entries of the receive queue `poll_recv_queue_default` hands to
`handle_remote_cq_data_completion`. That function is for the value a peer sends along with a write,
and the data word of an entry is only defined when `FI_REMOTE_CQ_DATA` is set.

Main result: `pollRecvQueueDefault_reports_iff`. The branch is taken for every flag of its mask, so
an event of a read or a write by a peer is reported too, with a data word that nobody sent.
-/

namespace LibFatbat

namespace CqEntry

/-- The entry is for a receive that was posted. -/
def IsMessage (e : CqEntry) : Prop := e.flags &&& (fiTagged ||| fiRecv) ≠ 0#64

/-- The entry carries a value that a peer sent. -/
def HasRemoteData (e : CqEntry) : Prop := e.flags &&& fiRemoteCqData ≠ 0#64

/-- A flag is set that one of the two branches is for. -/
def Flagged (e : CqEntry) : Prop :=
  e.flags &&& (fiRecv ||| fiTagged ||| fiRma ||| fiRemoteWrite ||| fiRemoteCqData) ≠ 0#64

instance (e : CqEntry) : Decidable e.IsMessage := inferInstanceAs (Decidable (_ ≠ _))

instance (e : CqEntry) : Decidable e.HasRemoteData := inferInstanceAs (Decidable (_ ≠ _))

instance (e : CqEntry) : Decidable e.Flagged := inferInstanceAs (Decidable (_ ≠ _))

end CqEntry

/-- The values of the entries that satisfy `P` were reported and counted, in order. -/
def ReportedOf (P : CqEntry → Prop) [DecidablePred P] (es : List CqEntry) (s s' : PollState) :
    Prop :=
  s'.remoteData = s.remoteData ++ (es.filter (P ·)).map CqEntry.data ∧
    s'.remoteCqDataReceived =
      s.remoteCqDataReceived + BitVec.ofNat 32 (es.filter (P ·)).length

/-- What was reported and counted is what peers sent. -/
def Reported : List CqEntry → PollState → PollState → Prop :=
  ReportedOf fun e => ¬ e.IsMessage ∧ e.HasRemoteData

/-- An entry with one of the flags is taken for a message or for remote data. -/
theorem classifyRx_eq_of_flagged {e : CqEntry} (h : e.Flagged) :
    classifyRx e.flags = if e.IsMessage then some (some .recv) else some none := by
  unfold classifyRx
  by_cases hmessage : e.IsMessage
  · rw [if_pos hmessage]
    exact if_pos hmessage
  · rw [if_neg hmessage]
    refine (if_neg hmessage).trans ?_
    have hmessage : e.flags &&& (fiTagged ||| fiRecv) = 0#64 := not_not.mp hmessage
    have hmask : fiRecv ||| fiTagged ||| fiRma ||| fiRemoteWrite ||| fiRemoteCqData =
        (fiTagged ||| fiRecv) ||| (fiRma ||| fiRemoteWrite ||| fiRemoteCqData) := by decide
    -- without a flag of either mask the entry has none at all
    apply if_pos
    intro hrma
    apply h
    rw [hmask, BitVec.and_or_distrib_left, hmessage, hrma, BitVec.or_zero]

/-- One entry: a message is handled, anything else is reported. -/
theorem recvEntry_reports {e : CqEntry} (hflags : e.Flagged)
    (hctx : e.IsMessage → e.opContext ≠ none) (s : PollState) :
    ∃ n s', recvEntry e s = .ok n s' ∧ ReportedOf (fun e => ¬ e.IsMessage) [e] s s' := by
  unfold recvEntry
  rw [classifyRx_eq_of_flagged hflags]
  by_cases hmessage : e.IsMessage
  · obtain ⟨c, hc⟩ := Option.ne_none_iff_exists'.mp (hctx hmessage)
    rw [if_pos hmessage, hc]
    refine ⟨1, _, rfl, ?_⟩
    simp [ReportedOf, hmessage]
  · rw [if_neg hmessage]
    refine ⟨0, _, rfl, ?_⟩
    simp [ReportedOf, hmessage]

/-- The loop reports every entry that is not for a message. -/
theorem processEntries_recvEntry {es : List CqEntry} (hflags : ∀ e ∈ es, e.Flagged)
    (hctx : ∀ e ∈ es, e.IsMessage → e.opContext ≠ none) (processed : ℤ) (s : PollState) :
    ∃ n s', processEntries recvEntry es processed s = .ok n s' ∧
      ReportedOf (fun e => ¬ e.IsMessage) es s s' := by
  induction es generalizing processed s with
  | nil => exact ⟨processed, s, rfl, by simp [ReportedOf]⟩
  | cons e es ih =>
    obtain ⟨hflag, hflags⟩ := List.forall_mem_cons.mp hflags
    obtain ⟨hctx, hctxs⟩ := List.forall_mem_cons.mp hctx
    obtain ⟨m, t, hrun, hdata, hcount⟩ := recvEntry_reports hflag hctx s
    obtain ⟨n, s', hrest, hdatas, hcounts⟩ := ih hflags hctxs (processed + m) t
    refine ⟨n, s', Program.bind_ok.mpr ⟨m, t, hrun, hrest⟩, ?_, ?_⟩
    · rw [hdatas, hdata, List.append_assoc, ← List.map_append, ← List.filter_append,
        List.singleton_append]
    · rw [hcounts, hcount, BitVec.add_assoc, ← BitVec.ofNat_add, ← List.length_append,
        ← List.filter_append, List.singleton_append]

/-- Reporting every entry that is not for a message is right when all of those carry data. -/
theorem reported_iff {es : List CqEntry} {s s' : PollState}
    (h : ReportedOf (fun e => ¬ e.IsMessage) es s s') :
    Reported es s s' ↔ ∀ e ∈ es, e.IsMessage ∨ e.HasRemoteData := by
  obtain ⟨hdata, hcount⟩ := h
  constructor
  · rintro ⟨hdata', -⟩ e he
    by_contra hnone
    obtain ⟨hmessage, hremote⟩ := not_or.mp hnone
    -- as many values were reported as entries are not for messages, so those all carry data
    have hlength := congrArg List.length (List.append_cancel_left (hdata.symm.trans hdata'))
    rw [List.length_map, List.length_map] at hlength
    have hsub : es.filter (fun e => ¬ e.IsMessage ∧ e.HasRemoteData) =
        (es.filter fun e => ¬ e.IsMessage).filter (fun e => e.HasRemoteData) := by
      rw [List.filter_filter]
      congr 1
      funext e
      rw [Bool.decide_and, Bool.and_comm]
    rw [hsub] at hlength
    have hall := List.length_filter_eq_length_iff.mp hlength.symm e
      (List.mem_filter.mpr ⟨he, decide_eq_true hmessage⟩)
    exact hremote (of_decide_eq_true hall)
  · intro hall
    have hsame : es.filter (fun e => ¬ e.IsMessage ∧ e.HasRemoteData) =
        es.filter fun e => ¬ e.IsMessage := by
      apply List.filter_congr
      intro e he
      have hremote : ¬ e.IsMessage → e.HasRemoteData := (hall e he).resolve_left
      exact decide_eq_decide.mpr (and_iff_left_of_imp hremote)
    show ReportedOf _ es s s'
    unfold ReportedOf
    rw [hsame]
    exact ⟨hdata, hcount⟩

/-- `poll_recv_queue_default` returns, and it calls `handle_remote_cq_data_completion` for exactly
those entries that carry remote data, in order, and counts them, if and only if every entry of the
batch is for a message or carries remote data. -/
theorem pollRecvQueueDefault_reports_iff {cfg : PollSetup} {es : List CqEntry} (s : PollState)
    (hassert : cfg.assertFails = false) (hlen : es.length ≤ maxCompletionsArrayLimit)
    (hflags : ∀ e ∈ es, e.Flagged) (hctx : ∀ e ∈ es, e.IsMessage → e.opContext ≠ none) :
    ∃ n s', pollRecvQueueDefault cfg (.entries es) s = .ok n s' ∧
      (Reported es s s' ↔ ∀ e ∈ es, e.IsMessage ∨ e.HasRemoteData) := by
  have hpoll : pollRecvQueueDefault cfg (.entries es) s = processEntries recvEntry es 0 s := by
    unfold pollRecvQueueDefault
    rw [hassert, if_neg Bool.false_ne_true]
    show (if maxCompletionsArrayLimit < es.length then _ else _ : Poll ℤ) s = _
    rw [if_neg (Nat.not_lt.mpr hlen)]
  obtain ⟨n, s', hrun, hreports⟩ := processEntries_recvEntry hflags hctx 0 s
  exact ⟨n, s', hpoll.trans hrun, reported_iff hreports⟩

/-- A receive and a write with a value. -/
theorem reports_write_data :
    ∃ n s', pollRecvQueueDefault .test
        (.entries [⟨fiRecv ||| fiTagged, some 1, 5#64⟩,
          ⟨fiRma ||| fiRemoteWrite ||| fiRemoteCqData, none, 7#64⟩]) .start = .ok n s' ∧
      Reported [⟨fiRecv ||| fiTagged, some 1, 5#64⟩,
        ⟨fiRma ||| fiRemoteWrite ||| fiRemoteCqData, none, 7#64⟩] .start s' := by
  obtain ⟨n, s', hrun, hiff⟩ := @pollRecvQueueDefault_reports_iff .test
    [⟨fiRecv ||| fiTagged, some 1, 5#64⟩,
      ⟨fiRma ||| fiRemoteWrite ||| fiRemoteCqData, none, 7#64⟩] .start
    (by decide) (by decide) (by decide) (by decide)
  exact ⟨n, s', hrun, hiff.mpr (by decide)⟩

/-- The event of a write without a value is reported, with whatever the data word was. -/
theorem reports_remote_write :
    CqEntry.Flagged ⟨fiRma ||| fiRemoteWrite, none, 7#64⟩ ∧
      ∃ n s', pollRecvQueueDefault .test (.entries [⟨fiRma ||| fiRemoteWrite, none, 7#64⟩])
          .start = .ok n s' ∧
        s'.remoteData = [7#64] ∧ ¬ Reported [⟨fiRma ||| fiRemoteWrite, none, 7#64⟩] .start s' := by
  refine ⟨by decide, 0, _, rfl, rfl, ?_⟩
  rintro ⟨hdata, -⟩
  exact absurd hdata (by decide)

end LibFatbat
