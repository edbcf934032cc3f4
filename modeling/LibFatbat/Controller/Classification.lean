import LibFatbat.Controller.Polling

/-!
# The classification of transmit completions

Which operations the three tests of `poll_send_queue_default` on the flags of a completion tell
apart. A provider may set further flags than those of the operation.

Main result: `pollSendQueueDefault_classifies_iff`. Messages are recognised whatever other flags are
set, writes unless a flag of messages is set, but reads only when no other flag is set: the test for
them is an equality.
-/

namespace LibFatbat

/-- The flags belong to an operation of the kind given and to no other, whatever further flags are
set. -/
def Kind.Flagged (flags : BitVec 64) : Kind → Prop
  | .send => flags &&& (fiSend ||| fiMsg ||| fiTagged) ≠ 0#64 ∧ flags &&& fiRma = 0#64
  | .recv => False
  | .read => flags &&& fiRma ≠ 0#64 ∧ flags &&& fiRead ≠ 0#64 ∧ flags &&& fiWrite = 0#64
  | .write => flags &&& fiRma ≠ 0#64 ∧ flags &&& fiWrite ≠ 0#64 ∧ flags &&& fiRead = 0#64

/-- The flags that a read or a write is recognised by. -/
def RmaRecognised (flags : BitVec 64) : Prop :=
  flags = fiRead ||| fiRma ∨
    (flags &&& fiWrite ≠ 0#64 ∧ flags &&& (fiTagged ||| fiSend ||| fiMsg) = 0#64)

/-- A bit that is set is the bit. -/
theorem and_twoPow_eq {flags : BitVec 64} {i : ℕ} (h : flags &&& .twoPow 64 i ≠ 0#64) :
    flags &&& .twoPow 64 i = .twoPow 64 i := by
  rw [BitVec.and_twoPow] at h ⊢
  split at h
  · next hbit => rw [if_pos hbit]
  · exact absurd rfl h

/-- The flags of a message lead to its branch; those of a read or a write do if and only if it is
recognised. -/
theorem classifyTx_eq_iff {kind : Kind} {flags : BitVec 64} (h : kind.Flagged flags) :
    classifyTx flags = some kind ↔ (flags &&& fiRma ≠ 0#64 → RmaRecognised flags) := by
  cases kind with
  | send =>
    obtain ⟨hmessage, hrma⟩ := h
    have hmask : fiSend ||| fiMsg ||| fiTagged = fiTagged ||| fiSend ||| fiMsg := by decide
    rw [classifyTx, if_pos (hmask ▸ hmessage)]
    simp [hrma]
  | recv => exact h.elim
  | read =>
    obtain ⟨hrma, -, hwrite⟩ := h
    -- A read is compared with the exact flags, so any further bit makes it unknown.
    have hrecognised : RmaRecognised flags ↔ flags = fiRead ||| fiRma :=
      or_iff_left fun hor => hor.1 hwrite
    simp only [ne_eq, hrma, not_false_eq_true, true_implies, hrecognised]
    constructor
    · intro hclass
      unfold classifyTx at hclass
      split at hclass
      · exact absurd hclass (by simp)
      split at hclass
      · assumption
      split at hclass <;> exact absurd hclass (by simp)
    · rintro rfl
      decide
  | write =>
    obtain ⟨hrma, hwrite, hread⟩ := h
    have hne : flags ≠ fiRead ||| fiRma := by
      rintro rfl
      exact absurd hread (by decide)
    have hrecognised : RmaRecognised flags ↔ flags &&& (fiTagged ||| fiSend ||| fiMsg) = 0#64 := by
      simp [RmaRecognised, hne, hwrite]
    -- A write is masked first, so further bits do no harm.
    have hboth : flags &&& (fiWrite ||| fiRma) = fiWrite ||| fiRma := by
      rw [BitVec.and_or_distrib_left]
      exact congrArg₂ _ (and_twoPow_eq hwrite) (and_twoPow_eq hrma)
    simp only [ne_eq, hrma, not_false_eq_true, true_implies, hrecognised]
    constructor
    · intro hclass
      unfold classifyTx at hclass
      split at hclass
      · exact absurd hclass (by simp)
      · next hmessage => exact not_not.mp hmessage
    · intro hmessage
      rw [classifyTx, if_neg (not_not.mpr hmessage), if_neg hne, if_pos hboth]

/-- The handler for an operation. -/
def Kind.ran (op : Kind × ℕ) : Ran := ⟨.tx, op.1.handler, op.2⟩

/-- The completions of the operations listed are counted by kind and handled in order. -/
def Classified (ops : List (Kind × ℕ)) (s s' : PollState) : Prop :=
  (∀ kind, s'.complete kind =
      s.complete kind + BitVec.ofNat 32 (ops.countP fun op => op.1 = kind)) ∧
    s'.ran = s.ran ++ ops.map Kind.ran

/-- The completion of an operation that is recognised is handled. -/
theorem sendEntry_eq {e : CqEntry} {op : Kind × ℕ} (hctx : e.opContext = some op.2)
    (hkind : classifyTx e.flags = some op.1) (s : PollState) :
    sendEntry e s = .ok 1 (s.finish op.1 [Kind.ran op]) := by
  obtain ⟨kind, c⟩ := op
  unfold sendEntry
  rw [hctx, hkind]
  cases kind with
  | send | read | write => rfl
  | recv =>
    unfold classifyTx at hkind
    split at hkind
    · exact absurd hkind (by simp)
    split at hkind
    · exact absurd hkind (by simp)
    split at hkind <;> exact absurd hkind (by simp)

/-- A batch of recognised completions is classified. -/
theorem processEntries_sendEntry {es : List CqEntry} {ops : List (Kind × ℕ)}
    (hctx : List.Forall₂ (fun e op => e.opContext = some op.2) es ops)
    (hkinds : List.Forall₂ (fun e op => classifyTx e.flags = some op.1) es ops) (processed : ℤ)
    (s : PollState) :
    ∃ n s', processEntries sendEntry es processed s = .ok n s' ∧ Classified ops s s' := by
  induction hctx generalizing processed s with
  | nil => exact ⟨processed, s, rfl, by simp [Classified]⟩
  | @cons e op es ops hc _ ih =>
    obtain ⟨hkind, hkinds⟩ := List.forall₂_cons.mp hkinds
    obtain ⟨n, s', hrest, hcount, hran⟩ := ih hkinds (processed + 1) (s.finish op.1 [Kind.ran op])
    refine ⟨n, s', Program.bind_ok.mpr ⟨1, _, sendEntry_eq hc hkind s, hrest⟩, fun kind => ?_, ?_⟩
    · rw [hcount kind, List.countP_cons]
      by_cases hkind : op.1 = kind
      · obtain rfl := hkind
        simp only [PollState.finish, Function.update_self, decide_true, if_true, BitVec.ofNat_add]
        ac_rfl
      · simp [PollState.finish, Function.update_of_ne (Ne.symm hkind), hkind]
    · rw [hran, List.map_cons]
      simp [PollState.finish]

/-- A handler tells the kind of operation it is for. -/
theorem Kind.handler_injective : Function.Injective Kind.handler := by
  intro a b h
  cases a <;> cases b <;> first | rfl | exact absurd h (by decide)

/-- When the handlers of a batch are those of the operations listed, the flags of each completion
lead to the branch of its operation. -/
theorem classifyTx_of_flatMap {es : List CqEntry} {ops : List (Kind × ℕ)}
    (hctx : List.Forall₂ (fun e op => e.opContext = some op.2) es ops)
    (hhandled : ∀ e ∈ es, e.SendHandled)
    (hran : es.flatMap CqEntry.sendRan = ops.map Kind.ran) :
    List.Forall₂ (fun e op => classifyTx e.flags = some op.1) es ops := by
  induction hctx with
  | nil => exact .nil
  | @cons e op es ops hc _ ih =>
    obtain ⟨⟨kind, hkind, -⟩, hrest⟩ := List.forall_mem_cons.mp hhandled
    have he : e.sendRan = [⟨.tx, kind.handler, op.2⟩] := by
      simp [CqEntry.sendRan, hkind, hc]
    rw [List.flatMap_cons, he, List.map_cons, List.singleton_append, List.cons.injEq] at hran
    obtain ⟨hhead, htail⟩ := hran
    have hhandler : kind.handler = op.1.handler := congrArg Ran.handler hhead
    obtain rfl := Kind.handler_injective hhandler
    exact .cons hkind (ih hrest htail)

/-- `poll_send_queue_default` counts every completion of a batch for its own kind of operation, runs
the handler of that kind on each context in order and does not terminate the program, if and only if
every read and every write is recognised by its flags. -/
theorem pollSendQueueDefault_classifies_iff {cfg : PollSetup} {lock : Bool} {es : List CqEntry}
    {ops : List (Kind × ℕ)} (s : PollState) (hassert : cfg.assertFails = false)
    (hlock : cfg.bypassTxLock = true ∨ lock = true)
    (hlen : es.length ≤ maxCompletionsArrayLimit)
    (hops : List.Forall₂ (fun e op => e.opContext = some op.2 ∧ op.1.Flagged e.flags) es ops) :
    (∃ n s', pollSendQueueDefault cfg lock (.entries es) s = .ok n s' ∧ Classified ops s s') ↔
      ∀ e ∈ es, e.flags &&& fiRma ≠ 0#64 → RmaRecognised e.flags := by
  have hpoll : pollSendQueueDefault cfg lock (.entries es) s = processEntries sendEntry es 0 s := by
    -- past the assertion and the lock, the function is its loop over the batch
    have hfree : (!cfg.bypassTxLock && !lock) = false := by
      rcases hlock with h | h <;> simp [h]
    unfold pollSendQueueDefault
    rw [hassert, hfree, if_neg Bool.false_ne_true, if_neg Bool.false_ne_true]
    show (if maxCompletionsArrayLimit < es.length then _ else _ : Poll ℤ) s = _
    rw [if_neg (Nat.not_lt.mpr hlen)]
  -- entry by entry, to be recognised is to be classified as what was posted
  have hclass : (∀ e ∈ es, e.flags &&& fiRma ≠ 0#64 → RmaRecognised e.flags) ↔
      List.Forall₂ (fun e op => classifyTx e.flags = some op.1) es ops := by
    clear hpoll hlen
    induction hops with
    | nil => simp
    | cons h _ ih => rw [List.forall_mem_cons, List.forall₂_cons, ih, classifyTx_eq_iff h.2]
  have hctx : List.Forall₂ (fun e op => e.opContext = some op.2) es ops :=
    hops.imp fun _ _ h => h.1
  rw [hclass, hpoll]
  constructor
  · rintro ⟨n, s', hrun, -, hran⟩
    obtain ⟨hhandled, -, hran'⟩ := processEntries_ok sendEntry_ran hrun
    rw [hran'] at hran
    exact classifyTx_of_flatMap hctx hhandled (List.append_cancel_left hran)
  · intro hkinds
    exact processEntries_sendEntry hctx hkinds 0 s

/-- A send, a read and a write in one batch. -/
theorem classifies_three_kinds :
    ∃ n s', pollSendQueueDefault .test true
        (.entries [⟨fiSend ||| fiMsg ||| fiDeliveryComplete, some 1, 0#64⟩,
          ⟨fiRead ||| fiRma, some 2, 0#64⟩,
          ⟨fiWrite ||| fiRma ||| fiDeliveryComplete, some 3, 0#64⟩]) .start = .ok n s' ∧
      Classified [(.send, 1), (.read, 2), (.write, 3)] .start s' := by
  refine (pollSendQueueDefault_classifies_iff .start (by decide) (.inr rfl) (by decide) ?_).mpr ?_
  · refine .cons ⟨rfl, ?_⟩ (.cons ⟨rfl, ?_⟩ (.cons ⟨rfl, ?_⟩ .nil)) <;>
      (unfold Kind.Flagged; decide)
  · unfold RmaRecognised
    decide

/-- A read whose completion has a further flag set terminates the program. -/
theorem flagged_read_terminates :
    Kind.Flagged (fiRead ||| fiRma ||| fiDeliveryComplete) .read ∧
      ∃ s', pollSendQueueDefault .test true
        (.entries [⟨fiRead ||| fiRma ||| fiDeliveryComplete, some 1, 0#64⟩]) .start =
          .error .terminate s' :=
  ⟨by unfold Kind.Flagged; decide, .start, rfl⟩

end LibFatbat
