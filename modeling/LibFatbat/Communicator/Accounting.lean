import Mathlib.Data.BitVec
import LibFatbat.Communicator.Refinement

/-!
# Outstanding operations

The difference of `*_posted_` and `*_complete_`. A poll function that finds a cancelled receive
increments no counter, so each such entry leaves the difference one too large for good:
`posted_sub_complete_iff`. Any other error entry of an operation ends the program.
-/

open Concurrent

namespace LibFatbat

section Accounting

variable {cfg : Setup} {c : Config Shared (List Frame)}

/-- The operations of a kind whose posting has started, by its counter, and whose entry has not
been processed. -/
def outstanding (k : Kind) (c : Config Shared (List Frame)) : ℕ :=
  countTokens (Token.isOutstanding k) (tokens c)

/-- The entries of a kind that were processed as cancellations. -/
def cancelled (k : Kind) (s : Core) : ℕ := s.count (Event.isCancelledOf k)

/-- What is posted and not complete, as a 32-bit number. -/
theorem posted_sub_complete (hc : (communicator cfg).Reachable c) (k : Kind) :
    c.shared.core.posted k - c.shared.core.complete k =
      BitVec.ofNat 32 (outstanding k c) + BitVec.ofNat 32 (cancelled k c.shared.core) := by
  have hlife := reachable_lifecycle hc
  obtain ⟨hposted, hcomplete⟩ := counters_eq hlife k
  have hsum := accounting_eq hlife k
  simp only at hposted hcomplete hsum
  rw [hposted, hcomplete, ← hsum]
  simp only [outstanding, cancelled, BitVec.ofNat_add]
  abel

/-- Nothing is complete that is not posted. -/
theorem count_completed_le (hc : (communicator cfg).Reachable c) (k : Kind) :
    c.shared.core.count (Event.isCompletedOf k) ≤ c.shared.core.count (Event.isCountedOf k) := by
  have hsum := accounting_eq (reachable_lifecycle hc) k
  simp only at hsum
  omega

/-- Only receives are cancelled. -/
theorem cancelled_eq_zero (hc : (communicator cfg).Reachable c) {k : Kind} (hk : k ≠ .recv) :
    cancelled k c.shared.core = 0 := by
  refine hc.invariant (I := fun c => cancelled k c.shared.core = 0) ?_ ?_
  · rintro c ⟨hshared, -⟩
    rw [hshared]
    rfl
  · rintro c _ - ih ⟨i, -, h⟩
    cases h with
    | unwind => exact ih
    | run h =>
      obtain ⟨h⟩ := h
      simp only [cancelled] at ih ⊢
      cases h with
      | @rxCancel o rest retry hkind =>
        rw [Core.count_record, ih, Event.isCancelledOf, hkind]
        simp [hk.symm]
      | _ => simpa [Shared.accept, Shared.retire, Event.isCancelledOf] using ih

/-- A counter never overtakes the one of what is posted, and their difference is the number of
outstanding operations exactly if the cancelled receives are too many to be seen in 32 bits, or
none; for the other kinds always. -/
theorem posted_sub_complete_iff (hc : (communicator cfg).Reachable c) (k : Kind) :
    c.shared.core.count (Event.isCompletedOf k) ≤ c.shared.core.count (Event.isCountedOf k) ∧
      (c.shared.core.posted k - c.shared.core.complete k = BitVec.ofNat 32 (outstanding k c) ↔
        (k = .recv → 2 ^ 32 ∣ cancelled .recv c.shared.core)) := by
  refine ⟨count_completed_le hc k, ?_⟩
  rw [posted_sub_complete hc, add_eq_left, ← BitVec.toNat_inj, BitVec.toNat_ofNat]
  by_cases hk : k = .recv
  · subst hk
    simpa using Nat.dvd_iff_mod_eq_zero.symm
  · simp [cancelled_eq_zero hc hk, hk]

end Accounting

/-- A run in which nothing was cancelled. -/
theorem posted_sub_complete_iff_recvPosted :
    ∃ (cfg : Setup) (c : Config Shared (List Frame)), (communicator cfg).Reachable c ∧
      c.shared.core.posted .recv - c.shared.core.complete .recv =
        BitVec.ofNat 32 (outstanding .recv c) ∧ outstanding .recv c = 1 := by
  have hc : (exceptionFree ⟨.other, .domain, .single, false, 64, 16⟩).Reachable
      ⟨.recvPosted ⟨0, .recv, 1#64, 5#64, 8, 0, 0#64, 0#64, 0#64, false⟩, [[.main]]⟩ :=
    reachable_recvPosted rfl rfl (by simp)
  exact ⟨_, _, hc.of_restrict, (posted_sub_complete_iff hc.of_restrict .recv).2.mpr (by decide),
    by decide⟩

/-- A receive is posted and cancelled: nothing is outstanding, and the counters differ. -/
theorem not_forall_posted_sub_complete :
    ¬ ∀ (cfg : Setup) (c : Config Shared (List Frame)) (k : Kind),
      (communicator cfg).Reachable c →
        c.shared.core.posted k - c.shared.core.complete k = BitVec.ofNat 32 (outstanding k c) := by
  intro hall
  have hc : (exceptionFree ⟨.other, .domain, .single, false, 64, 16⟩).Reachable
      ⟨.recvCancelled ⟨0, .recv, 1#64, 5#64, 8, 0, 0#64, 0#64, 0#64, false⟩, _⟩ :=
    reachable_recvCancelled rfl rfl rfl rfl (List.forall_mem_nil _)
  exact absurd (hall _ _ .recv hc.of_restrict) (by decide)

end LibFatbat
